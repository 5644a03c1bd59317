import LightTrack.Lib.Stable
import Mathlib.Data.List.MinMax
import Mathlib.Data.List.Perm.Basic
import Mathlib.Data.String.Basic
import Mathlib.Logic.Relation
import Mathlib.Order.Lattice
import Mathlib.Tactic.Basic

/-! # Least and greatest elements of a list

`List.min?` and `List.max?` over a linear order: they do not depend on the order of the list, and
monotone functions pass through them.  `List.argmax` is the first element of greatest key.

* `max?_flatMap`, `argmax_flatMap` : the greatest of several lists is the greatest of their greatest,
* `head?_mergeSort_eq_argmax`, `le_of_first`, `mem_take_mergeSort_iff` : what comes first when a
  list is sorted by a key.
-/

namespace Extremum

variable {α β γ δ : Type*} [LinearOrder α] [LinearOrder β]

theorem min?_perm {l l' : List α} (h : l.Perm l') : l.min? = l'.min? := by
  cases hmin : l'.min? with
  | none =>
    rw [List.min?_eq_none_iff] at hmin ⊢
    rw [hmin] at h
    exact h.eq_nil
  | some a =>
    rw [List.min?_eq_some_iff] at hmin ⊢
    refine ⟨h.mem_iff.2 hmin.1, ?_⟩
    intro b hb
    exact hmin.2 b (h.mem_iff.1 hb)

theorem max?_perm {l l' : List α} (h : l.Perm l') : l.max? = l'.max? := by
  cases hmax : l'.max? with
  | none =>
    rw [List.max?_eq_none_iff] at hmax ⊢
    rw [hmax] at h
    exact h.eq_nil
  | some a =>
    rw [List.max?_eq_some_iff] at hmax ⊢
    refine ⟨h.mem_iff.2 hmax.1, ?_⟩
    intro b hb
    exact hmax.2 b (h.mem_iff.1 hb)

/-- The greatest image under a monotone function is the image of the greatest. -/
theorem max?_map {f : α → β} (hf : Monotone f) (l : List α) : (l.map f).max? = l.max?.map f := by
  cases hmax : l.max? with
  | none =>
    rw [List.max?_eq_none_iff] at hmax
    rw [hmax]
    rfl
  | some a =>
    rw [List.max?_eq_some_iff] at hmax
    rw [Option.map_some, List.max?_eq_some_iff]
    refine ⟨List.mem_map_of_mem hmax.1, ?_⟩
    intro b hb
    rcases List.mem_map.1 hb with ⟨c, hc, rfl⟩
    exact hf (hmax.2 c hc)

/-- The greatest of two lists is that of their greatest. -/
theorem max?_append_eq (l l' : List α) :
    (l ++ l').max? = [l.max?, l'.max?].reduceOption.max? := by
  cases hmax : l.max? with
  | none =>
    rw [List.max?_eq_none_iff.1 hmax, List.nil_append]
    cases l'.max? <;> rfl
  | some a =>
    cases hmax' : l'.max? with
    | none =>
      rw [List.max?_eq_none_iff.1 hmax', List.append_nil, hmax]
      rfl
    | some b =>
      rw [List.max?_eq_some_iff] at hmax hmax'
      have hboth : [some a, some b].reduceOption.max? = some (max a b) := rfl
      rw [hboth, List.max?_eq_some_iff]
      constructor
      · rcases max_choice a b with h | h
        · rw [h]
          exact List.mem_append_left _ hmax.1
        · rw [h]
          exact List.mem_append_right _ hmax'.1
      · intro c hc
        rcases List.mem_append.1 hc with hc | hc
        · exact (hmax.2 c hc).trans (le_max_left a b)
        · exact (hmax'.2 c hc).trans (le_max_right a b)

/-- The greatest of several lists is the greatest of their greatest. -/
theorem max?_flatMap (g : γ → List α) (l : List γ) :
    (l.flatMap g).max? = (l.filterMap fun c => (g c).max?).max? := by
  induction l with
  | nil => rfl
  | cons c l ih =>
    have hcons : (c :: l).filterMap (fun c => (g c).max?) =
        (g c).max?.toList ++ l.filterMap fun c => (g c).max? := by
      rw [List.filterMap_cons]
      cases (g c).max? <;> rfl
    rw [List.flatMap_cons, hcons, max?_append_eq, max?_append_eq, ih]
    cases (g c).max? <;> rfl

/-- What only the greater elements satisfy can be asked of the greatest. -/
theorem max?_filter {p : α → Bool} (hp : ∀ a b, a ≤ b → p a = true → p b = true) (l : List α) :
    (l.filter p).max? = l.max?.filter p := by
  cases hmax : l.max? with
  | none =>
    rw [List.max?_eq_none_iff] at hmax
    rw [hmax]
    rfl
  | some a =>
    rw [List.max?_eq_some_iff] at hmax
    by_cases ha : p a = true
    · rw [Option.filter_some, if_pos ha, List.max?_eq_some_iff]
      refine ⟨List.mem_filter.2 ⟨hmax.1, ha⟩, ?_⟩
      intro b hb
      exact hmax.2 b (List.mem_filter.1 hb).1
    · rw [Option.filter_some, if_neg ha, List.max?_eq_none_iff, List.filter_eq_nil_iff]
      intro b hb hpb
      exact ha (hp b a (hmax.2 b hb) hpb)

/-! ## The first element of greatest key -/

/-- The greatest key is that of the first element that has it. -/
theorem max?_map_eq_argmax (f : γ → α) (l : List γ) : (l.map f).max? = (l.argmax f).map f := by
  cases harg : l.argmax f with
  | none =>
    rw [List.argmax_eq_none] at harg
    rw [harg]
    rfl
  | some c =>
    rw [Option.map_some, List.max?_eq_some_iff]
    refine ⟨List.mem_map_of_mem (List.argmax_mem harg), ?_⟩
    intro a ha
    rcases List.mem_map.1 ha with ⟨d, hd, rfl⟩
    exact List.le_of_mem_argmax hd harg

theorem argmax_append (f : γ → α) (l l' : List γ) :
    (l ++ l').argmax f = [l.argmax f, l'.argmax f].reduceOption.argmax f := by
  induction l with
  | nil =>
    rw [List.nil_append, List.argmax_nil]
    cases l'.argmax f <;> rfl
  | cons c l ih =>
    rw [List.cons_append, List.argmax_cons, List.argmax_cons, ih]
    cases l.argmax f with
    | none => cases l'.argmax f <;> rfl
    | some d =>
      cases l'.argmax f with
      | none =>
        change (if f c < f d then some d else some c) =
          [if f c < f d then some d else some c, none].reduceOption.argmax f
        split_ifs <;> rfl
      | some e =>
        have hpair : ∀ x y : γ, [some x, some y].reduceOption.argmax f =
            if f x < f y then some y else some x := fun x y => List.argmax_cons f x [y]
        rw [hpair]
        by_cases hde : f d < f e
        · by_cases hcd : f c < f d
          · simp only [if_pos hde, if_pos hcd, if_pos (hcd.trans hde), hpair]
          · simp only [if_pos hde, if_neg hcd, hpair]
        · by_cases hcd : f c < f d
          · simp only [if_neg hde, if_pos hcd, hpair]
          · have hce : ¬ f c < f e := not_lt.2 ((not_lt.1 hde).trans (not_lt.1 hcd))
            simp only [if_neg hde, if_neg hcd, if_neg hce, hpair]

/-- The first of greatest key in several lists is the first among the first of each. -/
theorem argmax_flatMap (f : γ → α) (g : δ → List γ) (l : List δ) :
    (l.flatMap g).argmax f = (l.filterMap fun d => (g d).argmax f).argmax f := by
  induction l with
  | nil => rfl
  | cons d l ih =>
    have hcons : (d :: l).filterMap (fun d => (g d).argmax f) =
        ((g d).argmax f).toList ++ l.filterMap fun d => (g d).argmax f := by
      rw [List.filterMap_cons]
      cases (g d).argmax f <;> rfl
    rw [List.flatMap_cons, hcons, argmax_append, argmax_append, ih]
    cases (g d).argmax f <;> rfl

/-! ## The first of a sorted list -/

theorem sorted_mergeSort (key : γ → α) (l : List γ) :
    (l.mergeSort fun a b => decide (key a ≤ key b)).Pairwise fun a b => key a ≤ key b := by
  have htrans : ∀ a b c : γ, decide (key a ≤ key b) = true → decide (key b ≤ key c) = true →
      decide (key a ≤ key c) = true := by
    intro a b c hab hbc
    rw [decide_eq_true_eq] at *
    exact le_trans hab hbc
  have htotal : ∀ a b : γ, (decide (key a ≤ key b) || decide (key b ≤ key a)) = true := by
    intro a b
    rw [Bool.or_eq_true, decide_eq_true_eq, decide_eq_true_eq]
    exact le_total (key a) (key b)
  exact (List.pairwise_mergeSort htrans htotal l).imp fun h => of_decide_eq_true h

/-- The element that comes first when a list is sorted by a key. -/
def first (key : γ → α) (l : List γ) : Option γ :=
  (l.mergeSort fun a b => decide (key a ≤ key b)).head?

@[simp] theorem first_eq_none_iff {key : γ → α} {l : List γ} : first key l = none ↔ l = [] := by
  unfold first
  rw [List.head?_eq_none_iff, ← List.length_eq_zero_iff, List.length_mergeSort,
    List.length_eq_zero_iff]

theorem mem_of_first {key : γ → α} {l : List γ} {a : γ} (h : first key l = some a) : a ∈ l :=
  List.mem_mergeSort.1 (List.mem_of_head? h)

/-- Nothing in the list has a smaller key. -/
theorem le_of_first {key : γ → α} {l : List γ} {a : γ} (h : first key l = some a) :
    ∀ b ∈ l, key a ≤ key b := by
  have hsorted := sorted_mergeSort key l
  intro b hb
  rcases List.head?_eq_some_iff.1 h with ⟨rest, hrest⟩
  rw [hrest, List.pairwise_cons] at hsorted
  have hmem : b ∈ l.mergeSort fun a b => decide (key a ≤ key b) := List.mem_mergeSort.2 hb
  rw [hrest] at hmem
  rcases List.mem_cons.1 hmem with rfl | hb
  · exact le_refl _
  · exact hsorted.1 b hb

theorem first_map (key : γ → α) (f : δ → γ) (l : List δ) :
    first key (l.map f) = (first (fun d => key (f d)) l).map f := by
  unfold first
  rw [← List.map_mergeSort (r := fun a b => decide (key (f a) ≤ key (f b))) fun _ _ _ _ => rfl,
    List.head?_map]

/-- An element with the least key comes first, if no other has its key. -/
theorem first_eq_some {key : γ → α} {l : List γ} {a : γ} (ha : a ∈ l) (hle : ∀ b ∈ l, key a ≤ key b)
    (hkey : ∀ b ∈ l, key b = key a → b = a) : first key l = some a := by
  cases hfirst : first key l with
  | none =>
    rw [first_eq_none_iff] at hfirst
    rw [hfirst] at ha
    cases ha
  | some b =>
    have hb := mem_of_first hfirst
    rw [hkey b hb (le_antisymm (le_of_first hfirst a ha) (hle b hb))]

/-- **What comes first in a stable sort by falling keys** is the first element of greatest key. -/
theorem head?_mergeSort_eq_argmax (key : γ → α) (l : List γ) :
    (l.mergeSort fun a b => decide (key b ≤ key a)).head? = l.argmax key := by
  have htrans : ∀ a b c : γ, decide (key b ≤ key a) = true → decide (key c ≤ key b) = true →
      decide (key c ≤ key a) = true := by
    intro a b c hab hbc
    rw [decide_eq_true_eq] at *
    exact le_trans hbc hab
  have htotal : ∀ a b : γ, (decide (key b ≤ key a) || decide (key a ≤ key b)) = true := by
    intro a b
    rw [Bool.or_eq_true, decide_eq_true_eq, decide_eq_true_eq]
    exact le_total (key b) (key a)
  induction l with
  | nil => rw [List.mergeSort_nil, List.argmax_nil, List.head?_nil]
  | cons a l ih =>
    rcases Stable.mergeSort_cons_split htrans htotal a l with ⟨l₁, l₂, hcons, hl, hl₁, hl₂⟩
    rw [hl] at ih
    rw [hcons, List.argmax_cons, ← ih]
    cases l₁ with
    | nil =>
      -- nothing in the rest has a greater key
      cases l₂ with
      | nil => rfl
      | cons b l₂ =>
        have hle := hl₂ b List.mem_cons_self
        rw [Bool.not_eq_false', decide_eq_true_eq] at hle
        change some a = if key a < key b then some b else some a
        rw [if_neg (not_lt.2 hle)]
    | cons b l₁ =>
      have hlt := hl₁ b List.mem_cons_self
      rw [Bool.not_eq_true', decide_eq_false_iff_not, not_le] at hlt
      change some b = if key a < key b then some b else some a
      rw [if_pos hlt]

/-! ## The first few of a sorted list -/

/-- In a list where each element comes before the later ones, an element is among the first `n`
exactly if fewer than `n` come before it. -/
theorem mem_take_iff_of_pairwise {lt : γ → γ → Bool} (hasymm : ∀ a b, lt a b = true → lt b a = false)
    {l : List γ} (h : l.Pairwise fun a b => lt a b = true) {a : γ} (ha : a ∈ l) (n : ℕ) :
    a ∈ l.take n ↔ (l.filter fun b => lt b a).length < n := by
  have hirrefl : ∀ b, lt b b = false := by
    intro b
    cases hb : lt b b with
    | false => rfl
    | true => exact (hasymm b b hb).symm.trans hb |>.symm
  induction l generalizing n with
  | nil => simp at ha
  | cons b l ih =>
    rcases List.pairwise_cons.1 h with ⟨hfirst, hrest⟩
    by_cases hab : a = b
    · -- nothing comes before the first element
      subst hab
      have hnone : (a :: l).filter (fun c => lt c a) = [] := by
        rw [List.filter_eq_nil_iff]
        intro c hc
        rcases List.mem_cons.1 hc with rfl | hc
        · rw [hirrefl]
          exact Bool.false_ne_true
        · rw [hasymm a c (hfirst c hc)]
          exact Bool.false_ne_true
      rw [hnone, List.length_nil]
      cases n with
      | zero => simp
      | succ n => simp
    · have hmem : a ∈ l := (List.mem_cons.1 ha).resolve_left hab
      have hbefore : (b :: l).filter (fun c => lt c a) = b :: l.filter fun c => lt c a :=
        List.filter_cons_of_pos (hfirst a hmem)
      rw [hbefore, List.length_cons]
      cases n with
      | zero => simp
      | succ n =>
        rw [List.take_succ_cons, List.mem_cons, Nat.succ_lt_succ_iff]
        exact (or_iff_right hab).trans (ih hrest hmem n)

/-- **Who is among the first `n`** of a list sorted by a key that tells its elements apart: the
elements that fewer than `n` others precede. -/
theorem mem_take_mergeSort_iff {key : γ → α} {l : List γ} (hnodup : (l.map key).Nodup) {a : γ}
    (ha : a ∈ l) (n : ℕ) :
    a ∈ (l.mergeSort fun b c => decide (key b ≤ key c)).take n ↔
      (l.filter fun b => decide (key b < key a)).length < n := by
  have hperm := List.mergeSort_perm l fun b c => decide (key b ≤ key c)
  have hsorted : (l.mergeSort fun b c => decide (key b ≤ key c)).Pairwise
      fun b c => decide (key b < key c) = true := by
    have hne := List.pairwise_map.1 ((hperm.map key).nodup_iff.2 hnodup)
    refine ((sorted_mergeSort key l).and hne).imp ?_
    rintro b c ⟨hle, hne⟩
    exact decide_eq_true (lt_of_le_of_ne hle hne)
  have hasymm : ∀ b c : γ, decide (key b < key c) = true → decide (key c < key b) = false := by
    intro b c h
    rw [decide_eq_true_eq] at h
    exact decide_eq_false h.not_gt
  rw [mem_take_iff_of_pairwise hasymm hsorted (hperm.mem_iff.2 ha) n,
    (hperm.filter fun b => decide (key b < key a)).length_eq]

end Extremum

/-! ## What nothing beats

`beats` is a relation that need not be transitive.  Where a rank goes down along it, it runs in
no circle, and a list that is not empty has an element nothing in it beats.

* `Ranked.acyclic`, `Ranked.undominated_ne_nil`,
* `find?_sorted` : the first qualified element of a sorted list stands before every other.
-/

namespace Frontier

variable {α κ : Type*} {beats : α → α → Bool}

/-- The elements that no element of the list beats. -/
def undominated (beats : α → α → Bool) (l : List α) : List α :=
  l.filter fun a => !l.any fun b => beats b a

theorem mem_undominated {l : List α} {a : α} :
    a ∈ undominated beats l ↔ a ∈ l ∧ ∀ b ∈ l, beats b a = false := by
  rw [undominated, List.mem_filter, Bool.not_eq_true', List.any_eq_false]
  exact and_congr_right fun _ => forall₂_congr fun _ _ => Bool.not_eq_true _ |>.to_iff

/-- What is left out is beaten. -/
theorem exists_beats {l : List α} {a : α} (ha : a ∈ l) (h : a ∉ undominated beats l) :
    ∃ b ∈ l, beats b a = true := by
  by_contra hnone
  push Not at hnone
  exact h (mem_undominated.2 ⟨ha, fun b hb => Bool.eq_false_of_not_eq_true (hnone b hb)⟩)

/-- A rank that is lower for what beats than for what is beaten. -/
def Ranked [LT κ] (beats : α → α → Bool) (rank : α → κ) : Prop :=
  ∀ a b, beats a b = true → rank a < rank b

/-- **Nothing beats itself**, along a chain of any length. -/
theorem Ranked.acyclic [Preorder κ] {rank : α → κ} (h : Ranked beats rank) (a : α) :
    ¬ Relation.TransGen (fun a b => beats a b = true) a a := by
  have hchain : ∀ {b c}, Relation.TransGen (fun a b => beats a b = true) b c → rank b < rank c := by
    intro b c hbc
    induction hbc with
    | single hstep => exact h _ _ hstep
    | tail _ hstep ih => exact ih.trans (h _ _ hstep)
  exact fun hcycle => lt_irrefl _ (hchain hcycle)

/-- **Something is beaten by nothing.** -/
theorem Ranked.undominated_ne_nil [LinearOrder κ] {rank : α → κ} (h : Ranked beats rank)
    {l : List α} (hl : l ≠ []) : undominated beats l ≠ [] := by
  cases hmin : l.argmin rank with
  | none => exact absurd (List.argmin_eq_none.1 hmin) hl
  | some a =>
    refine List.ne_nil_of_mem (mem_undominated.2 ⟨List.argmin_mem hmin, fun b hb => ?_⟩)
    rw [← Bool.not_eq_true]
    exact fun hbeats => absurd (h b a hbeats) (not_lt.2 (List.le_of_mem_argmin hb hmin))

/-- The first qualified element of a sorted list. -/
theorem find?_sorted {le : α → α → Prop} {l : List α} (hl : l.Pairwise le) {p : α → Bool} {a : α}
    (h : l.find? p = some a) : a ∈ l ∧ p a = true ∧ ∀ b ∈ l, p b = true → b = a ∨ le a b := by
  rcases List.find?_eq_some_iff_append.1 h with ⟨hp, before, behind, rfl, hnone⟩
  refine ⟨List.mem_append_right _ (List.mem_cons_self ..), hp, fun b hb hpb => ?_⟩
  rcases List.mem_append.1 hb with hb | hb
  · have hno := hnone b hb
    rw [hpb] at hno
    exact absurd hno Bool.false_ne_true
  · rcases List.mem_cons.1 hb with rfl | hb
    · exact Or.inl rfl
    · exact Or.inr ((List.pairwise_cons.1 (List.pairwise_append.1 hl).2.1).1 b hb)

end Frontier
