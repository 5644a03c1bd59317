import Mathlib.Algebra.Order.BigOperators.Group.List
import Mathlib.Algebra.Order.Ring.Int
import Mathlib.Data.List.Forall2
import Mathlib.Data.List.Perm.Subperm

/-! # Sums over selections

A selection keeps some elements of a list, in order.  What is asked of all of them is read off the
largest and the smallest, and selections of two lists are compared element by element.

* `selections_bounded_iff` : every selection of some integers adds up to a value between two
  bounds exactly when the positive ones and the negative ones do,
* `filter_map_eq_of_forall₂` : lists that agree element by element have the same selection,
* `filter_agree` : selections of one length, one within the other, are the same.
-/

namespace Selection

/-! ## Bounds -/

/-- What the positive integers of a list add up to. -/
def up (l : List ℤ) : ℤ := (l.map fun n => max n 0).sum

/-- What the negative ones take away. -/
def down (l : List ℤ) : ℤ := (l.map fun n => max (-n) 0).sum

theorem up_nonneg (l : List ℤ) : 0 ≤ up l := by
  apply List.sum_nonneg
  intro n hn
  rcases List.mem_map.1 hn with ⟨m, -, rfl⟩
  exact le_max_right m 0

theorem down_nonneg (l : List ℤ) : 0 ≤ down l := by
  apply List.sum_nonneg
  intro n hn
  rcases List.mem_map.1 hn with ⟨m, -, rfl⟩
  exact le_max_right (-m) 0

theorem sum_eq (l : List ℤ) : l.sum = up l - down l := by
  induction l with
  | nil => rfl
  | cons n l ih =>
    unfold up down at ih ⊢
    rw [List.sum_cons, List.map_cons, List.map_cons, List.sum_cons, List.sum_cons]
    omega

/-- A selection has fewer of either sign. -/
theorem up_le {m l : List ℤ} (h : m.Sublist l) : up m ≤ up l := by
  refine List.Sublist.sum_le_sum (h.map _) ?_
  intro n hn
  rcases List.mem_map.1 hn with ⟨k, -, rfl⟩
  exact le_max_right k 0

theorem down_le {m l : List ℤ} (h : m.Sublist l) : down m ≤ down l := by
  refine List.Sublist.sum_le_sum (h.map _) ?_
  intro n hn
  rcases List.mem_map.1 hn with ⟨k, -, rfl⟩
  exact le_max_right (-k) 0

/-- The positive ones are a selection. -/
theorem sum_positive (l : List ℤ) : (l.filter fun n => decide (0 ≤ n)).sum = up l := by
  induction l with
  | nil => rfl
  | cons n l ih =>
    unfold up at ih ⊢
    rw [List.map_cons, List.sum_cons, ← ih]
    by_cases hn : 0 ≤ n
    · rw [List.filter_cons_of_pos (by simpa using hn), List.sum_cons, max_eq_left hn]
    · rw [List.filter_cons_of_neg (by simpa using hn), max_eq_right (by omega), zero_add]

/-- So are the negative ones. -/
theorem sum_negative (l : List ℤ) : (l.filter fun n => decide (n < 0)).sum = -down l := by
  induction l with
  | nil => rfl
  | cons n l ih =>
    unfold down at ih ⊢
    rw [List.map_cons, List.sum_cons]
    by_cases hn : n < 0
    · rw [List.filter_cons_of_pos (by simpa using hn), List.sum_cons, ih, max_eq_left (by omega)]
      omega
    · rw [List.filter_cons_of_neg (by simpa using hn), ih, max_eq_right (by omega), zero_add]

/-- **Every selection adds up within the bounds** exactly when the positive integers and the
negative ones do. -/
theorem selections_bounded_iff {l : List ℤ} (lo hi : ℤ) :
    (∀ m : List ℤ, m.Sublist l → lo ≤ m.sum ∧ m.sum ≤ hi) ↔ lo ≤ -down l ∧ up l ≤ hi := by
  constructor
  · intro h
    have hneg := (h _ (List.filter_sublist (p := fun n => decide (n < 0)))).1
    have hpos := (h _ (List.filter_sublist (p := fun n => decide (0 ≤ n)))).2
    rw [sum_negative] at hneg
    rw [sum_positive] at hpos
    exact ⟨hneg, hpos⟩
  · rintro ⟨hlo, hhi⟩ m hm
    have hsum := sum_eq m
    have hup := up_le hm
    have hdown := down_le hm
    have hup0 := up_nonneg m
    have hdown0 := down_nonneg m
    omega

/-! ## Lists that agree -/

variable {α β γ : Type*} {R : α → β → Prop} {l : List α} {l' : List β}

theorem exists_left_of_mem (h : List.Forall₂ R l l') {b : β} (hb : b ∈ l') : ∃ a ∈ l, R a b := by
  induction h with
  | nil => exact absurd hb List.not_mem_nil
  | cons hab _ ih =>
    rcases List.mem_cons.1 hb with rfl | hb
    · exact ⟨_, List.mem_cons_self .., hab⟩
    · rcases ih hb with ⟨a, ha, hR⟩
      exact ⟨a, List.mem_cons_of_mem _ ha, hR⟩

/-- Lists that agree on what is selected, and on what is made of it, have the same selection. -/
theorem filter_map_eq_of_forall₂ (h : List.Forall₂ R l l') {p : α → Bool} {q : β → Bool}
    {f : α → γ} {g : β → γ} (hp : ∀ a b, R a b → q b = p a) (hf : ∀ a b, R a b → g b = f a) :
    (l'.filter q).map g = (l.filter p).map f := by
  induction h with
  | nil => rfl
  | @cons a b l l' hab _ ih =>
    rw [List.filter_cons, List.filter_cons, hp a b hab]
    cases p a with
    | false => exact ih
    | true =>
      rw [if_pos rfl, if_pos rfl, List.map_cons, List.map_cons, ih, hf a b hab]

/-- Rewriting elements that are selected neither before nor after. -/
theorem filter_map_of_fixed {p : α → Bool} {f : α → α}
    (h : ∀ a ∈ l, f a = a ∨ p a = false ∧ p (f a) = false) : (l.map f).filter p = l.filter p := by
  induction l with
  | nil => rfl
  | cons a l ih =>
    rw [List.forall_mem_cons] at h
    rw [List.map_cons, List.filter_cons, List.filter_cons, ih h.2]
    rcases h.1 with hsame | ⟨hbefore, hafter⟩
    · rw [hsame]
    · rw [if_neg (by simp [hafter]), if_neg (by simp [hbefore])]

/-- Where a list is cut off behind the first element that a predicate rejects, the split at that
element is the same. -/
theorem split_of_prefix {kept : List α} (h : kept <+: l) {p : α → Bool}
    (hne : kept.dropWhile p ≠ []) :
    kept.takeWhile p = l.takeWhile p ∧ (kept.dropWhile p).head? = (l.dropWhile p).head? := by
  rcases h with ⟨rest, rfl⟩
  have hlen : ¬ (kept.takeWhile p).length = kept.length := by
    intro hlen
    have hsplit := congrArg List.length (List.takeWhile_append_dropWhile (p := p) (l := kept))
    rw [List.length_append, hlen] at hsplit
    exact hne (List.length_eq_zero_iff.1 (by omega))
  have hempty : (kept.dropWhile p).isEmpty = false := by
    rw [List.isEmpty_eq_false_iff]
    exact hne
  rw [List.takeWhile_append, if_neg hlen, List.dropWhile_append, hempty]
  refine ⟨rfl, ?_⟩
  rw [if_neg (by simp), List.head?_append_of_ne_nil _ hne]

/-- The first elements of a list without repetition are all of them only if there are no more. -/
theorem forall_mem_take_iff (hnodup : l.Nodup) {n : ℕ} :
    (∀ a ∈ l, a ∈ l.take n) ↔ l.length ≤ n := by
  constructor
  · intro h
    exact (List.subperm_of_subset hnodup h).length_le.trans (List.length_take_le n l)
  · intro h a ha
    rw [List.take_of_length_le h]
    exact ha

/-! ## Selections of one length -/

/-- A selection that keeps no fewer elements than a wider one keeps the same. -/
theorem filter_agree {p q : α → Bool} {l : List α} (hle : ∀ a ∈ l, p a = true → q a = true)
    (hlen : (l.filter p).length = (l.filter q).length) : ∀ a ∈ l, q a = true → p a = true := by
  have hsplit : l.filter p = (l.filter q).filter p := by
    rw [List.filter_filter]
    refine List.filter_congr ?_
    intro a ha
    cases hp : p a with
    | false => rfl
    | true => rw [hle a ha hp, Bool.and_self]
  rw [hsplit] at hlen
  intro a ha hq
  exact List.length_filter_eq_length_iff.1 hlen a (List.mem_filter.2 ⟨ha, hq⟩)

end Selection
