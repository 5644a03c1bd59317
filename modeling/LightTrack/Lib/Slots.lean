import Mathlib.Data.List.Induction
import Mathlib.Data.List.ReduceOption
import Mathlib.Tactic.Common

/-! # Slots filled by position

A list of empty and full slots, and values placed in it by position, each in a slot of its own.

* `getElem?_fill_of_mem`, `getElem?_fill_of_notMem` : what a slot holds in the end,
* `reduceOption_fill_perm` : the values in the end are those at the start and those placed.
-/

namespace Slots

variable {α β : Type*}

/-- Place each value in its slot, in turn. -/
def fill (slots : List (Option β)) (placed : List (ℕ × β)) : List (Option β) :=
  placed.foldl (fun slots x => slots.set x.1 (some x.2)) slots

theorem length_fill (slots : List (Option β)) (placed : List (ℕ × β)) :
    (fill slots placed).length = slots.length := by
  induction placed generalizing slots with
  | nil => rfl
  | cons x placed ih => exact (ih _).trans List.length_set

/-- A slot that nothing is placed in stays as it is. -/
theorem getElem?_fill_of_notMem {slots : List (Option β)} {placed : List (ℕ × β)} {i : ℕ}
    (h : i ∉ placed.map Prod.fst) : (fill slots placed)[i]? = slots[i]? := by
  induction placed generalizing slots with
  | nil => rfl
  | cons x placed ih =>
    rw [List.map_cons, List.mem_cons, not_or] at h
    exact (ih h.2).trans (List.getElem?_set_ne (Ne.symm h.1))

/-- A slot that one value is placed in holds that value. -/
theorem getElem?_fill_of_mem {slots : List (Option β)} {placed : List (ℕ × β)} {i : ℕ} {b : β}
    (hmem : (i, b) ∈ placed) (hnodup : (placed.map Prod.fst).Nodup) (hi : i < slots.length) :
    (fill slots placed)[i]? = some (some b) := by
  induction placed generalizing slots with
  | nil => exact absurd hmem List.not_mem_nil
  | cons x placed ih =>
    rcases List.nodup_cons.1 hnodup with ⟨hnew, hrest⟩
    rcases List.mem_cons.1 hmem with rfl | hmem
    · exact (getElem?_fill_of_notMem hnew).trans (List.getElem?_set_self hi)
    · refine ih hmem hrest ?_
      rw [List.length_set]
      exact hi

/-- Filling an empty slot adds its value. -/
theorem reduceOption_set_perm {slots : List (Option β)} {i : ℕ} (h : slots[i]? = some none)
    (b : β) : (slots.set i (some b)).reduceOption.Perm (b :: slots.reduceOption) := by
  induction slots generalizing i with
  | nil => simp at h
  | cons slot slots ih =>
    cases i with
    | zero =>
      rcases Option.some.inj h with rfl
      rw [List.set_cons_zero, List.reduceOption_cons_of_some, List.reduceOption_cons_of_none]
    | succ i =>
      have hrest := ih (i := i) h
      rw [List.set_cons_succ]
      cases slot with
      | none =>
        rw [List.reduceOption_cons_of_none, List.reduceOption_cons_of_none]
        exact hrest
      | some c =>
        rw [List.reduceOption_cons_of_some, List.reduceOption_cons_of_some]
        exact (hrest.cons c).trans (.swap b c _)

/-- Values placed in empty slots of their own are all there in the end. -/
theorem reduceOption_fill_perm {slots : List (Option β)} {placed : List (ℕ × β)}
    (hnodup : (placed.map Prod.fst).Nodup)
    (hempty : ∀ i ∈ placed.map Prod.fst, slots[i]? = some none) :
    (fill slots placed).reduceOption.Perm (placed.map Prod.snd ++ slots.reduceOption) := by
  induction placed generalizing slots with
  | nil => exact .refl _
  | cons x placed ih =>
    rcases List.nodup_cons.1 hnodup with ⟨hnew, hrest⟩
    have hnext : ∀ i ∈ placed.map Prod.fst, (slots.set x.1 (some x.2))[i]? = some none := by
      intro i hi
      have hne : x.1 ≠ i := by
        rintro rfl
        exact hnew hi
      rw [List.getElem?_set_ne hne]
      exact hempty i (List.mem_cons_of_mem _ hi)
    have hset := reduceOption_set_perm (hempty x.1 (List.mem_cons_self ..)) x.2
    refine (ih hrest hnext).trans ((hset.append_left _).trans ?_)
    exact List.perm_middle

/-- The values of full slots that know their positions are in the order of the positions. -/
theorem map_reduceOption_eq_range {slots : List (Option β)} {f : β → ℕ}
    (h : ∀ i, i < slots.length → ∃ b, slots[i]? = some (some b) ∧ f b = i) :
    slots.reduceOption.map f = List.range slots.length := by
  induction slots using List.reverseRecOn with
  | nil => rfl
  | append_singleton slots slot ih =>
    have hinit : ∀ i, i < slots.length → ∃ b, slots[i]? = some (some b) ∧ f b = i := by
      intro i hi
      rcases h i (by simp only [List.length_append, List.length_singleton]; omega) with ⟨b, hb, hf⟩
      rw [List.getElem?_append_left hi] at hb
      exact ⟨b, hb, hf⟩
    rcases h slots.length (by simp) with ⟨b, hb, hf⟩
    rw [List.getElem?_concat_length] at hb
    rcases Option.some.inj hb with rfl
    rw [List.reduceOption_append, List.map_append, ih hinit, List.length_append,
      List.length_singleton, List.range_succ, ← hf]
    rfl

end Slots
