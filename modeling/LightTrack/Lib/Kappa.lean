import Mathlib.Algebra.Order.Field.Rat
import Mathlib.Data.List.Count
import Mathlib.Tactic.FieldSimp
import Mathlib.Tactic.Linarith
import Mathlib.Tactic.Positivity
import Mathlib.Tactic.Ring

/-! # Chance-corrected agreement

Cohen's kappa of two raters who each pass or fail the same things.

* `kappa_le_one`, `neg_one_le_kappa` : its bounds,
* `kappa_swap`, `kappa_perm` : it knows neither the raters' order nor that of the things,
* `kappa_eq_one_iff` : it is one just where the raters agree on everything,
* `le_one_sub_chance` : how far from certain an agreement by chance is.
-/

namespace Kappa

variable {l : List (Bool × Bool)}

/-- The share of the things rated so. -/
def share (p : Bool × Bool → Bool) (l : List (Bool × Bool)) : ℚ := l.countP p / l.length

/-- How often the raters agree. -/
def observed (l : List (Bool × Bool)) : ℚ := share (fun x => x.1 == x.2) l

/-- How often two raters who pass as many things would agree by chance. -/
def chance (l : List (Bool × Bool)) : ℚ :=
  share Prod.fst l * share Prod.snd l + (1 - share Prod.fst l) * (1 - share Prod.snd l)

/-- Cohen's kappa; raters who leave nothing to chance agree. -/
def kappa (l : List (Bool × Bool)) : ℚ :=
  if chance l = 1 then 1 else (observed l - chance l) / (1 - chance l)

/-! ## Counts -/

/-- What both pass they agree on. -/
theorem count_passes (l : List (Bool × Bool)) :
    l.countP Prod.fst + l.countP Prod.snd ≤ l.length + l.countP fun x => x.1 == x.2 := by
  induction l with
  | nil => exact le_rfl
  | cons x l ih =>
    rcases x with ⟨a, b⟩
    simp only [List.countP_cons, List.length_cons]
    cases a <;> cases b <;> simp <;> omega

/-- What neither passes they agree on. -/
theorem count_fails (l : List (Bool × Bool)) :
    l.length ≤ l.countP Prod.fst + l.countP Prod.snd + l.countP fun x => x.1 == x.2 := by
  induction l with
  | nil => exact le_rfl
  | cons x l ih =>
    rcases x with ⟨a, b⟩
    simp only [List.countP_cons, List.length_cons]
    cases a <;> cases b <;> simp <;> omega

section Shares

variable (p : Bool × Bool → Bool)

theorem share_nonneg (l : List (Bool × Bool)) : 0 ≤ share p l := by
  unfold share
  positivity

theorem share_le_one (l : List (Bool × Bool)) : share p l ≤ 1 :=
  div_le_one_of_le₀ (Nat.cast_le.2 List.countP_le_length) (Nat.cast_nonneg _)

theorem share_mul_length (hl : l ≠ []) : share p l * l.length = l.countP p :=
  div_mul_cancel₀ _ (Nat.cast_ne_zero.2 (List.length_pos_of_ne_nil hl).ne')

theorem share_perm {l' : List (Bool × Bool)} (h : l.Perm l') : share p l = share p l' := by
  unfold share
  rw [h.countP_eq, h.length_eq]

theorem share_swap : share p (l.map Prod.swap) = share (p ∘ Prod.swap) l := by
  unfold share
  rw [List.countP_map, List.length_map]

end Shares

/-! ## Observed agreement -/

section Observed

theorem observed_le_one (l : List (Bool × Bool)) : observed l ≤ 1 := share_le_one _ l

/-- The raters agree at least as often as their passes have to meet. -/
theorem passes_le_observed (hl : l ≠ []) :
    share Prod.fst l + share Prod.snd l - 1 ≤ observed l := by
  have hlen : (0 : ℚ) < l.length := Nat.cast_pos.2 (List.length_pos_of_ne_nil hl)
  have hcount : (l.countP Prod.fst + l.countP Prod.snd : ℚ) ≤
      l.length + l.countP fun x => x.1 == x.2 := by
    exact_mod_cast count_passes l
  have hsum : share Prod.fst l + share Prod.snd l ≤ 1 + observed l := by
    unfold observed share
    rw [← add_div, ← div_self hlen.ne', ← add_div]
    exact div_le_div_of_nonneg_right hcount hlen.le
  linarith

/-- And as often as their fails have to. -/
theorem fails_le_observed (hl : l ≠ []) :
    1 - share Prod.fst l - share Prod.snd l ≤ observed l := by
  have hlen : (0 : ℚ) < l.length := Nat.cast_pos.2 (List.length_pos_of_ne_nil hl)
  have hcount : (l.length : ℚ) ≤ l.countP Prod.fst + l.countP Prod.snd +
      l.countP fun x => x.1 == x.2 := by
    exact_mod_cast count_fails l
  have hsum : 1 ≤ share Prod.fst l + share Prod.snd l + observed l := by
    unfold observed share
    rw [← add_div, ← add_div, le_div_iff₀ hlen, one_mul]
    exact hcount
  linarith

theorem observed_eq_one_iff (hl : l ≠ []) : observed l = 1 ↔ ∀ x ∈ l, x.1 = x.2 := by
  have hlen : (l.length : ℚ) ≠ 0 := Nat.cast_ne_zero.2 (List.length_pos_of_ne_nil hl).ne'
  unfold observed share
  rw [div_eq_one_iff_eq hlen, Nat.cast_inj, List.countP_eq_length]
  simp

end Observed

/-! ## Agreement by chance -/

section Chance

theorem one_sub_chance (l : List (Bool × Bool)) : 1 - chance l =
    share Prod.fst l * (1 - share Prod.snd l) + (1 - share Prod.fst l) * share Prod.snd l := by
  unfold chance
  ring

theorem chance_le_one (l : List (Bool × Bool)) : chance l ≤ 1 := by
  rw [← sub_nonneg, one_sub_chance]
  have hfst := sub_nonneg.2 (share_le_one Prod.fst l)
  have hsnd := sub_nonneg.2 (share_le_one Prod.snd l)
  exact add_nonneg (mul_nonneg (share_nonneg _ l) hsnd) (mul_nonneg hfst (share_nonneg _ l))

/-- An agreement that is certain by chance is there. -/
theorem observed_of_certain (hl : l ≠ []) (h : chance l = 1) : observed l = 1 := by
  have hzero := one_sub_chance l
  rw [h, sub_self] at hzero
  have hfst := share_nonneg Prod.fst l
  have hsnd := share_nonneg Prod.snd l
  have hfst' := sub_nonneg.2 (share_le_one Prod.fst l)
  have hsnd' := sub_nonneg.2 (share_le_one Prod.snd l)
  have hboth := (add_eq_zero_iff_of_nonneg (mul_nonneg hfst hsnd') (mul_nonneg hfst' hsnd)).1
    hzero.symm
  refine le_antisymm (observed_le_one l) ?_
  rcases mul_eq_zero.1 hboth.1 with hnone | hall
  · -- the first passes nothing, so the second does not either
    rw [hnone, sub_zero, one_mul] at hboth
    have hle := fails_le_observed hl
    rwa [hnone, hboth.2, sub_zero, sub_zero] at hle
  · have hone : share Prod.snd l = 1 := (sub_eq_zero.1 hall).symm
    rw [hone, mul_one, sub_eq_zero] at hboth
    have hle := passes_le_observed hl
    rwa [hone, ← hboth.2, add_sub_cancel_right] at hle

theorem add_le_mul_succ {x y : ℕ} (hx : x ≠ 0) (hy : y ≠ 0) : x + y ≤ x * y + 1 := by
  rcases Nat.exists_eq_succ_of_ne_zero hx with ⟨x, rfl⟩
  rcases Nat.exists_eq_succ_of_ne_zero hy with ⟨y, rfl⟩
  have hmul : (x + 1) * (y + 1) = x * y + x + y + 1 := by ring
  have hnonneg : 0 ≤ x * y := Nat.zero_le _
  rw [Nat.succ_eq_add_one, Nat.succ_eq_add_one, hmul]
  omega

/-- Two raters' passes and fails, crossed: none, or as many as there are things. -/
theorem le_crossed {a a' b b' n : ℕ} (ha : a + a' = n) (hb : b + b' = n)
    (h : a * b' + a' * b ≠ 0) : n ≤ a * b' + a' * b := by
  by_cases ha0 : a = 0
  · rw [ha0, zero_mul, zero_add] at h ⊢
    rw [← ha, ha0, zero_add]
    exact Nat.le_mul_of_pos_right _ (Nat.pos_of_ne_zero (right_ne_zero_of_mul h))
  by_cases ha'0 : a' = 0
  · rw [ha'0, zero_mul, add_zero] at h ⊢
    rw [← ha, ha'0, add_zero]
    exact Nat.le_mul_of_pos_right _ (Nat.pos_of_ne_zero (right_ne_zero_of_mul h))
  by_cases hb0 : b = 0
  · rw [← hb, hb0, mul_zero, zero_add, add_zero]
    exact Nat.le_mul_of_pos_left _ (Nat.pos_of_ne_zero ha0)
  by_cases hb'0 : b' = 0
  · rw [← hb, hb'0, mul_zero, add_zero, zero_add]
    exact Nat.le_mul_of_pos_left _ (Nat.pos_of_ne_zero ha'0)
  have hfirst := add_le_mul_succ ha0 hb'0
  have hsecond := add_le_mul_succ ha'0 hb0
  omega

/-- **An agreement that is not certain by chance is so by one thing at least.** -/
theorem le_one_sub_chance (hl : l ≠ []) (h : chance l ≠ 1) : 1 / l.length ≤ 1 - chance l := by
  have hlen : (0 : ℚ) < l.length := Nat.cast_pos.2 (List.length_pos_of_ne_nil hl)
  have hfst := share_mul_length Prod.fst hl
  have hsnd := share_mul_length Prod.snd hl
  -- in whole things
  have hcounts : (1 - chance l) * (l.length * l.length) =
      (l.countP Prod.fst * (l.length - l.countP Prod.snd) +
        (l.length - l.countP Prod.fst) * l.countP Prod.snd : ℕ) := by
    rw [one_sub_chance, Nat.cast_add, Nat.cast_mul, Nat.cast_mul, Nat.cast_sub List.countP_le_length,
      Nat.cast_sub List.countP_le_length, ← hfst, ← hsnd]
    ring
  have hne : l.countP Prod.fst * (l.length - l.countP Prod.snd) +
      (l.length - l.countP Prod.fst) * l.countP Prod.snd ≠ 0 := by
    intro hzero
    rw [hzero, Nat.cast_zero, mul_eq_zero, sub_eq_zero] at hcounts
    exact hcounts.elim (fun hone => h hone.symm) (mul_pos hlen hlen).ne'
  have hle := le_crossed (Nat.add_sub_of_le List.countP_le_length)
    (Nat.add_sub_of_le List.countP_le_length) hne
  have hcast : (l.length : ℚ) ≤ (1 - chance l) * (l.length * l.length) :=
    hcounts ▸ Nat.cast_le.2 hle
  rw [div_le_iff₀ hlen]
  refine le_of_mul_le_mul_right ?_ hlen
  rwa [one_mul, mul_assoc]

end Chance

/-! ## Kappa -/

theorem kappa_of_certain (h : chance l = 1) : kappa l = 1 := if_pos h

theorem kappa_of_uncertain (h : chance l ≠ 1) :
    kappa l = (observed l - chance l) / (1 - chance l) := if_neg h

theorem uncertain_pos (h : chance l ≠ 1) : 0 < 1 - chance l :=
  sub_pos.2 (lt_of_le_of_ne (chance_le_one l) h)

theorem kappa_le_one (l : List (Bool × Bool)) : kappa l ≤ 1 := by
  by_cases h : chance l = 1
  · exact (kappa_of_certain h).le
  · rw [kappa_of_uncertain h, div_le_one₀ (uncertain_pos h)]
    exact sub_le_sub_right (observed_le_one l) _

/-- **Kappa is never below minus one.** -/
theorem neg_one_le_kappa (hl : l ≠ []) : -1 ≤ kappa l := by
  by_cases h : chance l = 1
  · rw [kappa_of_certain h]
    norm_num
  · rw [kappa_of_uncertain h, le_div_iff₀ (uncertain_pos h)]
    have hpasses := passes_le_observed hl
    have hfails := fails_le_observed hl
    have hfst := share_nonneg Prod.fst l
    have hsnd := share_nonneg Prod.snd l
    have hfst' := share_le_one Prod.fst l
    have hsnd' := share_le_one Prod.snd l
    have hchance : chance l = 1 - (share Prod.fst l + share Prod.snd l) +
        2 * (share Prod.fst l * share Prod.snd l) := by
      unfold chance
      ring
    -- the product of the shares is greatest where they are equal
    have hproduct : 4 * (share Prod.fst l * share Prod.snd l) ≤
        (share Prod.fst l + share Prod.snd l) ^ 2 := by
      have hsq := sq_nonneg (share Prod.fst l - share Prod.snd l)
      have hexpand : (share Prod.fst l - share Prod.snd l) ^ 2 =
          (share Prod.fst l + share Prod.snd l) ^ 2 - 4 * (share Prod.fst l * share Prod.snd l) := by
        ring
      linarith
    rw [hchance]
    -- a distance of at most one from one is no less than its square
    rcases le_total (share Prod.fst l + share Prod.snd l) 1 with hs | hs
    · nlinarith
    · nlinarith

theorem kappa_eq_one_iff (hl : l ≠ []) : kappa l = 1 ↔ ∀ x ∈ l, x.1 = x.2 := by
  rw [← observed_eq_one_iff hl]
  by_cases h : chance l = 1
  · exact iff_of_true (kappa_of_certain h) (observed_of_certain hl h)
  · rw [kappa_of_uncertain h, div_eq_one_iff_eq (uncertain_pos h).ne', sub_left_inj]

theorem kappa_perm {l' : List (Bool × Bool)} (h : l.Perm l') : kappa l = kappa l' := by
  unfold kappa chance observed
  rw [share_perm (fun x => x.1 == x.2) h, share_perm Prod.fst h, share_perm Prod.snd h]

theorem kappa_swap (l : List (Bool × Bool)) : kappa (l.map Prod.swap) = kappa l := by
  have hobserved : observed (l.map Prod.swap) = observed l := by
    unfold observed
    rw [share_swap]
    exact congrArg (share · l) (funext fun x => Bool.beq_comm)
  have hchance : chance (l.map Prod.swap) = chance l := by
    unfold chance
    rw [share_swap, share_swap]
    change share Prod.snd l * share Prod.fst l + (1 - share Prod.snd l) * (1 - share Prod.fst l) = _
    ring
  unfold kappa
  rw [hobserved, hchance]

end Kappa
