import Mathlib.Algebra.BigOperators.Group.List.Basic
import Mathlib.Algebra.BigOperators.Ring.List
import Mathlib.Algebra.Order.BigOperators.Group.List
import Mathlib.Algebra.Order.Field.Basic
import Mathlib.Tactic.Linarith
import Mathlib.Tactic.FieldSimp
import Mathlib.Tactic.Ring

/-! # Weights, their shares and their means

* `capped σ l` : every weight of `l` cut down to what the others allow it, `σ / (1 - σ)` of their sum,
  so that none holds more than the share `σ` of what remains (`le_share_of_mem_capped`),
* `mean l` : the mean of the values of `l` under their weights, which lies between the least and the
  greatest of them (`le_mean`, `mean_le`).
-/

namespace Share

variable {α : Type*} [Field α]

/-- The mean of values (second) under weights (first). -/
def mean (l : List (α × α)) : α := (l.map fun p => p.2 * p.1).sum / (l.map Prod.fst).sum

/-! ## Capping a share -/

/-- What a weight may be at most next to others that add up to `rest`. -/
def ceiling (σ rest : α) : α := σ / (1 - σ) * rest

variable [LinearOrder α]

/-- The weights with none above its ceiling. -/
def capped (σ : α) (l : List α) : List α := l.map fun c => min c (ceiling σ (l.sum - c))

section

variable [IsStrictOrderedRing α] {σ : α} {l l₁ l₂ : List α} {c : α}

/-- A weight is within its ceiling where it is within its share. -/
theorem le_ceiling_iff (hσ : σ < 1) {total : α} : c ≤ ceiling σ (total - c) ↔ c ≤ σ * total := by
  have hpos : 0 < 1 - σ := sub_pos.2 hσ
  have heq : ceiling σ (total - c) = (σ * total - σ * c) / (1 - σ) := by
    unfold ceiling
    rw [div_mul_eq_mul_div, mul_sub]
  rw [heq, le_div_iff₀ hpos]
  constructor
  · intro h
    linarith
  · intro h
    linarith

/-- Weights of which none exceeds the share stay as they are. -/
theorem capped_eq_self (hσ : σ < 1) (h : ∀ c ∈ l, c ≤ σ * l.sum) : capped σ l = l := by
  unfold capped
  conv_rhs => rw [← List.map_id l]
  apply List.map_congr_left
  intro c hc
  exact min_eq_left ((le_ceiling_iff hσ).2 (h c hc))

/-- A share of at least a half leaves a weight at least what the others have together. -/
theorem le_ceiling_of_half (hhalf : 1 / 2 ≤ σ) (hσ : σ < 1) {rest : α} (hrest : 0 ≤ rest) :
    rest ≤ ceiling σ rest := by
  have hpos : 0 < 1 - σ := sub_pos.2 hσ
  have hone : 1 ≤ σ / (1 - σ) := by
    rw [le_div_iff₀ hpos]
    linarith
  calc rest = 1 * rest := (one_mul _).symm
    _ ≤ σ / (1 - σ) * rest := mul_le_mul_of_nonneg_right hone hrest

/-- **Only the greatest of the weights is ever cut.** -/
theorem capped_split (hhalf : 1 / 2 ≤ σ) (hσ : σ < 1) (hc : 0 ≤ c)
    (hnonneg : ∀ x ∈ l₁ ++ l₂, 0 ≤ x) (htop : ∀ x ∈ l₁ ++ l₂, x ≤ c) :
    capped σ (l₁ ++ c :: l₂) = l₁ ++ min c (ceiling σ (l₁ ++ l₂).sum) :: l₂ := by
  have hsum : (l₁ ++ c :: l₂).sum = (l₁ ++ l₂).sum + c := by
    simp only [List.sum_append, List.sum_cons]
    ring
  -- next to the greatest, the others are always within their ceiling
  have hkeep : ∀ x ∈ l₁ ++ l₂, min x (ceiling σ ((l₁ ++ c :: l₂).sum - x)) = x := by
    intro x hx
    apply min_eq_left
    have hle : x ≤ (l₁ ++ l₂).sum := List.single_le_sum hnonneg x hx
    have hrest : c ≤ (l₁ ++ c :: l₂).sum - x := by
      rw [hsum]
      linarith
    calc x ≤ c := htop x hx
      _ ≤ (l₁ ++ c :: l₂).sum - x := hrest
      _ ≤ ceiling σ ((l₁ ++ c :: l₂).sum - x) :=
        le_ceiling_of_half hhalf hσ (hc.trans hrest)
  have hmap : ∀ m : List α, (∀ x ∈ m, x ∈ l₁ ++ l₂) →
      m.map (fun x => min x (ceiling σ ((l₁ ++ c :: l₂).sum - x))) = m := by
    intro m hm
    conv_rhs => rw [← List.map_id m]
    apply List.map_congr_left
    intro x hx
    exact hkeep x (hm x hx)
  unfold capped
  rw [List.map_append, List.map_cons, hmap l₁ fun x hx => List.mem_append_left _ hx,
    hmap l₂ fun x hx => List.mem_append_right _ hx, hsum, add_sub_cancel_right]

/-- **No capped weight holds more than its share.** -/
theorem le_share_of_mem_capped (hhalf : 1 / 2 ≤ σ) (hσ : σ < 1) (hnonneg : ∀ x ∈ l, 0 ≤ x) :
    ∀ w ∈ capped σ l, w ≤ σ * (capped σ l).sum := by
  by_cases hfair : ∀ c ∈ l, c ≤ σ * l.sum
  · rw [capped_eq_self hσ hfair]
    exact hfair
  · push Not at hfair
    rcases hfair with ⟨c, hmem, hover⟩
    rcases List.append_of_mem hmem with ⟨l₁, l₂, rfl⟩
    have hpos : 0 < 1 - σ := sub_pos.2 hσ
    have hrest : ∀ x ∈ l₁ ++ l₂, 0 ≤ x := by
      intro x hx
      apply hnonneg
      rcases List.mem_append.1 hx with h | h
      · exact List.mem_append_left _ h
      · exact List.mem_append_right _ (List.mem_cons_of_mem _ h)
    have hsum : (l₁ ++ c :: l₂).sum = (l₁ ++ l₂).sum + c := by
      simp only [List.sum_append, List.sum_cons]
      ring
    have hc : 0 ≤ c := hnonneg c hmem
    have hR : 0 ≤ (l₁ ++ l₂).sum := List.sum_nonneg hrest
    -- the one above its share has more than the others together
    have hmost : (l₁ ++ l₂).sum ≤ c := by
      rw [hsum] at hover
      nlinarith
    have htop : ∀ x ∈ l₁ ++ l₂, x ≤ c := fun x hx => (List.single_le_sum hrest x hx).trans hmost
    have hcut : ceiling σ (l₁ ++ l₂).sum ≤ c := by
      have h := mt (le_ceiling_iff (c := c) hσ).1 (not_le.2 hover)
      rw [hsum, add_sub_cancel_right] at h
      exact (not_le.1 h).le
    rw [capped_split hhalf hσ hc hrest htop, min_eq_right hcut]
    have htotal : (l₁ ++ ceiling σ (l₁ ++ l₂).sum :: l₂).sum = (l₁ ++ l₂).sum / (1 - σ) := by
      simp only [List.sum_append, List.sum_cons, ceiling]
      field_simp
      ring
    have hshare : σ * ((l₁ ++ l₂).sum / (1 - σ)) = ceiling σ (l₁ ++ l₂).sum := by
      unfold ceiling
      ring
    intro w hw
    rw [htotal, hshare]
    rcases List.mem_append.1 hw with h | h
    · exact (List.single_le_sum hrest w (List.mem_append_left _ h)).trans
        (le_ceiling_of_half hhalf hσ hR)
    · rcases List.mem_cons.1 h with rfl | h
      · exact le_rfl
      · exact (List.single_le_sum hrest w (List.mem_append_right _ h)).trans
          (le_ceiling_of_half hhalf hσ hR)

/-- Capping keeps weights positive where there are at least two. -/
theorem pos_of_mem_capped (hpos : 0 < σ) (hσ : σ < 1) (hl : 2 ≤ l.length) (h : ∀ x ∈ l, 0 < x) :
    ∀ w ∈ capped σ l, 0 < w := by
  intro w hw
  rcases List.mem_map.1 hw with ⟨c, hc, rfl⟩
  rcases List.append_of_mem hc with ⟨l₁, l₂, rfl⟩
  have hrest : 0 < (l₁ ++ l₂).sum := by
    apply List.sum_pos
    · intro x hx
      apply h
      rcases List.mem_append.1 hx with h | h
      · exact List.mem_append_left _ h
      · exact List.mem_append_right _ (List.mem_cons_of_mem _ h)
    · rintro hnil
      have hlen := congrArg List.length hnil
      simp only [List.length_append, List.length_cons, List.length_nil] at hl hlen
      omega
  have hsum : (l₁ ++ c :: l₂).sum - c = (l₁ ++ l₂).sum := by
    simp only [List.sum_append, List.sum_cons]
    ring
  rw [hsum]
  exact lt_min (h c hc) (mul_pos (div_pos hpos (sub_pos.2 hσ)) hrest)

/-! ## Bounds on a mean -/

/-- A mean is at least what every value is. -/
theorem le_mean {l : List (α × α)} {a : α} (hw : ∀ p ∈ l, 0 ≤ p.1) (hpos : 0 < (l.map Prod.fst).sum)
    (h : ∀ p ∈ l, a ≤ p.2) : a ≤ mean l := by
  unfold mean
  rw [le_div_iff₀ hpos, ← List.sum_map_mul_left]
  apply List.sum_le_sum
  intro p hp
  exact mul_le_mul_of_nonneg_right (h p hp) (hw p hp)

/-- A mean is at most what every value is. -/
theorem mean_le {l : List (α × α)} {b : α} (hw : ∀ p ∈ l, 0 ≤ p.1) (hpos : 0 < (l.map Prod.fst).sum)
    (h : ∀ p ∈ l, p.2 ≤ b) : mean l ≤ b := by
  unfold mean
  rw [div_le_iff₀ hpos, ← List.sum_map_mul_left]
  apply List.sum_le_sum
  intro p hp
  exact mul_le_mul_of_nonneg_right (h p hp) (hw p hp)

end

end Share
