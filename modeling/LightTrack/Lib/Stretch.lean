import Mathlib.Data.List.Basic
import Mathlib.Data.List.Forall2

/-! # Maximal stretches of a list

A list is read from the left, and every stretch of consecutive elements that satisfy `p` is folded
into one summary, closed by the first element that does not.

* `ranges` : where the stretches begin and end,
* `mem_ranges_iff`, `pairwise_ranges` : they are exactly the maximal ones, in order and apart,
* `gather_eq` : what a fold that opens, extends and closes summaries makes of them.
-/

namespace Stretch

variable {α β : Type*}

/-- The elements from one position up to another. -/
def slice (l : List α) (r : ℕ × ℕ) : List α := (l.drop r.1).take (r.2 - r.1)

/-- A maximal stretch of elements that satisfy `p`: one more on either side would not. -/
structure Maximal (p : α → Bool) (l : List α) (r : ℕ × ℕ) : Prop where
  nonempty : r.1 < r.2
  inside : r.2 ≤ l.length
  holds : ∀ k a, r.1 ≤ k → k < r.2 → l[k]? = some a → p a = true
  left : ∀ k a, k + 1 = r.1 → l[k]? = some a → p a = false
  right : ∀ a, l[r.2]? = some a → p a = false

/-- The stretches of what follows position `k`, where one may have begun. -/
def rangesFrom (p : α → Bool) : ℕ → Option ℕ → List α → List (ℕ × ℕ)
  | k, o, [] => (o.map fun i => (i, k)).toList
  | k, o, a :: l =>
    if p a then rangesFrom p (k + 1) (some (o.getD k)) l
    else (o.map fun i => (i, k)).toList ++ rangesFrom p (k + 1) none l

def ranges (p : α → Bool) (l : List α) : List (ℕ × ℕ) := rangesFrom p 0 none l

/-- Summaries, opened and extended by the elements that satisfy `p`, closed by the others. -/
def gather (p : α → Bool) (start : α → β) (extend : β → α → β) : Option β → List α → List β
  | o, [] => o.toList
  | o, a :: l =>
    if p a then
      gather p start extend (some ((o.map fun b => extend b a).getD (start a))) l
    else o.toList ++ gather p start extend none l

/-- The summary of a stretch that has an element. -/
def summary (start : α → β) (extend : β → α → β) : List α → Option β
  | [] => none
  | a :: l => some (l.foldl extend (start a))

/-! ## Where the stretches are -/

section Ranges

variable {p : α → Bool} {l : List α} {k i : ℕ} {r : ℕ × ℕ}

/-- What is known of a position: no stretch reaches it, or one began before and still goes on. -/
def Opens (p : α → Bool) (l : List α) (k : ℕ) : Option ℕ → Prop
  | none => ∀ j a, j + 1 = k → l[j]? = some a → p a = false
  | some i => i < k ∧ (∀ j a, i ≤ j → j < k → l[j]? = some a → p a = true) ∧
      ∀ j a, j + 1 = i → l[j]? = some a → p a = false

theorem Opens.step {o : Option ℕ} {a : α} (h : Opens p l k o) (ha : l[k]? = some a)
    (hp : p a = true) : Opens p l (k + 1) (some (o.getD k)) := by
  cases o with
  | none =>
    refine ⟨Nat.lt_succ_self k, ?_, h⟩
    intro j b hkj hj hb
    have hjk : j = k := by
      simp only [Option.getD_none] at hkj
      omega
    subst hjk
    rw [ha] at hb
    exact Option.some.inj hb ▸ hp
  | some i =>
    obtain ⟨hik, hholds, hleft⟩ := h
    refine ⟨Nat.lt_succ_of_lt hik, ?_, hleft⟩
    intro j b hij hj hb
    by_cases hjk : j = k
    · subst hjk
      rw [ha] at hb
      exact Option.some.inj hb ▸ hp
    · exact hholds j b hij (by omega) hb

theorem opens_none (hclosed : ∀ a, l[k]? = some a → p a = false) : Opens p l (k + 1) none := by
  intro j b hj hb
  have hjk : j = k := by omega
  subst hjk
  exact hclosed b hb

/-- No stretch begins at an element that does not satisfy `p`. -/
theorem Maximal.first_ne {a : α} (h : Maximal p l r) (ha : l[k]? = some a) (hp : p a = false) :
    r.1 ≠ k := by
  intro heq
  have htrue := h.holds k a (by omega) (heq ▸ h.nonempty) ha
  rw [hp] at htrue
  exact Bool.false_ne_true htrue

/-- A stretch that goes on up to a position and no further is the next one. -/
theorem maximal_iff_of_closed (h : Opens p l k (some i)) (hk : k ≤ l.length)
    (hclosed : ∀ a, l[k]? = some a → p a = false) :
    Maximal p l r ∧ i ≤ r.1 ↔ r = (i, k) ∨ Maximal p l r ∧ k + 1 ≤ r.1 := by
  obtain ⟨hik, hholds, hleft⟩ := h
  constructor
  · rintro ⟨hmax, hi⟩
    have hget : ∀ j, j < l.length → ∃ a, l[j]? = some a := fun j hj =>
      ⟨l[j], List.getElem?_eq_getElem hj⟩
    by_cases hlt : k < r.1
    · exact .inr ⟨hmax, hlt⟩
    have hinside := hmax.inside
    have hnonempty := hmax.nonempty
    left
    -- it begins where the open one does: the element before would be within that one
    have hfirst : r.1 = i := by
      by_contra hne
      obtain ⟨a, ha⟩ := hget (r.1 - 1) (by omega)
      have htrue := hholds (r.1 - 1) a (by omega) (by omega) ha
      rw [hmax.left (r.1 - 1) a (by omega) ha] at htrue
      exact Bool.false_ne_true htrue
    have hlast : r.2 = k := by
      by_contra hne
      by_cases hover : k < r.2
      · obtain ⟨a, ha⟩ := hget k (by omega)
        have htrue := hmax.holds k a (by omega) hover ha
        rw [hclosed a ha] at htrue
        exact Bool.false_ne_true htrue
      · obtain ⟨a, ha⟩ := hget r.2 (by omega)
        have htrue := hholds r.2 a (by omega) (by omega) ha
        rw [hmax.right a ha] at htrue
        exact Bool.false_ne_true htrue
    rw [← hfirst, ← hlast]
  · rintro (rfl | ⟨hmax, hlt⟩)
    · exact ⟨⟨hik, hk, hholds, hleft, hclosed⟩, Nat.le_refl i⟩
    · exact ⟨hmax, by omega⟩

theorem mem_rangesFrom_iff {rest : List α} {o : Option ℕ} (h : Opens p l k o) (hk : k ≤ l.length)
    (hrest : l.drop k = rest) : r ∈ rangesFrom p k o rest ↔ Maximal p l r ∧ o.getD k ≤ r.1 := by
  induction rest generalizing k o with
  | nil =>
    have hlen : l.length ≤ k := List.drop_eq_nil_iff.1 hrest
    have hfar : ¬ (Maximal p l r ∧ k ≤ r.1) := by
      rintro ⟨hmax, hle⟩
      have hinside := hmax.inside
      have hnonempty := hmax.nonempty
      omega
    unfold rangesFrom
    cases o with
    | none => simpa using hfar
    | some i =>
      have hclosed : ∀ a, l[k]? = some a → p a = false := by
        intro a ha
        rw [List.getElem?_eq_none hlen] at ha
        cases ha
      rw [Option.getD_some, maximal_iff_of_closed h hk hclosed]
      have hnext : ¬ (Maximal p l r ∧ k + 1 ≤ r.1) := fun ⟨hmax, hle⟩ => hfar ⟨hmax, by omega⟩
      rw [Option.map_some, Option.toList_some, List.mem_singleton, or_iff_left hnext]
  | cons a rest ih =>
    have ha : l[k]? = some a := by
      have hzero := congrArg (fun l' => l'[0]?) hrest
      simpa using hzero
    have hlt : k < l.length := (List.getElem?_eq_some_iff.1 ha).1
    have hdrop : l.drop (k + 1) = rest := by
      rw [← List.tail_drop, hrest, List.tail_cons]
    unfold rangesFrom
    split_ifs with hp
    · exact ih (h.step ha hp) hlt hdrop
    · rw [Bool.not_eq_true] at hp
      have hclosed : ∀ b, l[k]? = some b → p b = false := by
        intro b hb
        rw [ha] at hb
        exact Option.some.inj hb ▸ hp
      -- the element closes what was open, and opens nothing
      rw [List.mem_append, ih (opens_none hclosed) hlt hdrop]
      cases o with
      | none =>
        simp only [Option.map_none, Option.toList_none, List.not_mem_nil, false_or,
          Option.getD_none]
        refine and_congr_right fun hmax => ?_
        have hne : r.1 ≠ k := hmax.first_ne ha hp
        omega
      | some i =>
        -- the open stretch ends here and is maximal
        rw [Option.getD_some, maximal_iff_of_closed h hk hclosed]
        simp only [Option.map_some, Option.toList_some, List.mem_singleton, Option.getD_none]

/-- **The ranges are the maximal stretches.** -/
theorem mem_ranges_iff : r ∈ ranges p l ↔ Maximal p l r := by
  have h : Opens p l 0 none := fun j a hj => absurd hj (by omega)
  unfold ranges
  rw [mem_rangesFrom_iff h (Nat.zero_le _) List.drop_zero]
  exact and_iff_left (Nat.zero_le _)

theorem le_of_mem_rangesFrom {rest : List α} {o : Option ℕ} (ho : ∀ i, o = some i → i ≤ k)
    (hr : r ∈ rangesFrom p k o rest) : o.getD k ≤ r.1 := by
  induction rest generalizing k o with
  | nil =>
    cases o with
    | none => exact absurd hr List.not_mem_nil
    | some i =>
      rw [List.mem_singleton.1 hr]
      exact Nat.le_refl i
  | cons a rest ih =>
    unfold rangesFrom at hr
    have hopen : o.getD k ≤ k := by
      cases o with
      | none => exact Nat.le_refl k
      | some i => exact ho i rfl
    split_ifs at hr with hp
    · exact ih (k := k + 1) (o := some (o.getD k))
        (fun i hi => by rw [← Option.some.inj hi]; omega) hr
    · rcases List.mem_append.1 hr with hr | hr
      · cases o with
        | none => exact absurd hr List.not_mem_nil
        | some i =>
          rw [List.mem_singleton.1 hr]
          exact Nat.le_refl i
      · have hle : k + 1 ≤ r.1 := ih (o := none) (fun i hi => absurd hi (by simp)) hr
        omega

/-- Between two stretches there is an element that belongs to none. -/
theorem pairwise_rangesFrom (rest : List α) (o : Option ℕ) :
    (rangesFrom p k o rest).Pairwise fun a b => a.2 < b.1 := by
  induction rest generalizing k o with
  | nil => cases o <;> simp [rangesFrom]
  | cons a rest ih =>
    unfold rangesFrom
    split_ifs with hp
    · exact ih _
    · rw [List.pairwise_append]
      refine ⟨by cases o <;> simp, ih _, ?_⟩
      intro r hr t ht
      have hle : k + 1 ≤ t.1 := le_of_mem_rangesFrom (fun i hi => absurd hi (by simp)) ht
      cases o with
      | none => exact absurd hr List.not_mem_nil
      | some i =>
        rw [List.mem_singleton.1 hr]
        exact hle

theorem pairwise_ranges (p : α → Bool) (l : List α) :
    (ranges p l).Pairwise fun a b => a.2 < b.1 := pairwise_rangesFrom l none

end Ranges

/-! ## What is made of them -/

section Gather

variable {p : α → Bool} {start : α → β} {extend : β → α → β} {l : List α} {k : ℕ}

theorem slice_self (l : List α) (k : ℕ) : slice l (k, k) = [] := by
  unfold slice
  rw [Nat.sub_self, List.take_zero]

theorem slice_succ {i : ℕ} {a : α} (hi : i ≤ k) (ha : l[k]? = some a) :
    slice l (i, k + 1) = slice l (i, k) ++ [a] := by
  have hlen : k + 1 - i = k - i + 1 := by omega
  have hget : (l.drop i)[k - i]? = some a := by
    rw [List.getElem?_drop, Nat.add_sub_cancel' hi]
    exact ha
  unfold slice
  rw [hlen, List.take_add_one, hget, Option.toList_some]

theorem slice_ne_nil {r : ℕ × ℕ} (h : r.1 < r.2) (hr : r.2 ≤ l.length) : slice l r ≠ [] := by
  intro hnil
  have hlen := congrArg List.length hnil
  unfold slice at hlen
  rw [List.length_take, List.length_drop, List.length_nil] at hlen
  omega

theorem summary_concat (xs : List α) (a : α) :
    summary start extend (xs ++ [a]) =
      some (((summary start extend xs).map fun b => extend b a).getD (start a)) := by
  cases xs with
  | nil => rfl
  | cons x xs =>
    simp only [summary, List.cons_append, List.foldl_append, List.foldl_cons, List.foldl_nil,
      Option.map_some, Option.getD_some]

/-- What is closed at a position is the summary of what began before it. -/
theorem map_toList_summary {o : Option ℕ} (ho : ∀ i, o = some i → i < k) (hk : k ≤ l.length) :
    (summary start extend (slice l (o.getD k, k))).toList.map some =
      ((o.map fun i => (i, k)).toList).map fun r => summary start extend (slice l r) := by
  cases o with
  | none =>
    rw [Option.getD_none, slice_self]
    rfl
  | some i =>
    simp only [Option.getD_some, Option.map_some, Option.toList_some, List.map_cons, List.map_nil]
    cases hs : slice l (i, k) with
    | nil => exact absurd hs (slice_ne_nil (ho i rfl) hk)
    | cons x xs => rfl

theorem gatherFrom_eq {rest : List α} {o : Option ℕ} (ho : ∀ i, o = some i → i < k)
    (hk : k ≤ l.length) (hrest : l.drop k = rest) :
    (gather p start extend (summary start extend (slice l (o.getD k, k))) rest).map some =
      (rangesFrom p k o rest).map fun r => summary start extend (slice l r) := by
  induction rest generalizing k o with
  | nil => exact map_toList_summary ho hk
  | cons a rest ih =>
    have ha : l[k]? = some a := by
      have hzero := congrArg (fun l' => l'[0]?) hrest
      simpa using hzero
    have hlt : k < l.length := (List.getElem?_eq_some_iff.1 ha).1
    have hdrop : l.drop (k + 1) = rest := by
      rw [← List.tail_drop, hrest, List.tail_cons]
    have hopen : o.getD k ≤ k := by
      cases o with
      | none => exact Nat.le_refl k
      | some i => exact Nat.le_of_lt (ho i rfl)
    unfold gather rangesFrom
    split_ifs with hp
    · -- the element joins the open stretch, or opens one
      have hnext := ih (o := some (o.getD k))
        (fun i hi => by rw [← Option.some.inj hi]; omega) hlt hdrop
      rw [Option.getD_some, slice_succ hopen ha, summary_concat] at hnext
      exact hnext
    · -- what was open is closed, and its summary is complete
      have hnext := ih (o := none) (fun i hi => absurd hi (by simp)) hlt hdrop
      rw [Option.getD_none, slice_self] at hnext
      rw [List.map_append, List.map_append, map_toList_summary ho hk]
      exact congrArg _ hnext

/-- **The fold summarizes the maximal stretches**, one after the other. -/
theorem gather_eq (p : α → Bool) (start : α → β) (extend : β → α → β) (l : List α) :
    (gather p start extend none l).map some =
      (ranges p l).map fun r => summary start extend (slice l r) := by
  have h := @gatherFrom_eq _ _ p start extend l 0 l none (fun i hi => absurd hi (by simp))
    (Nat.zero_le _) List.drop_zero
  rwa [Option.getD_none, slice_self] at h

end Gather

end Stretch
