import Mathlib.Algebra.BigOperators.Fin
import Mathlib.Algebra.Order.BigOperators.Group.Finset
import Mathlib.Algebra.Order.Field.Basic
import Mathlib.Algebra.Order.Floor.Semiring
import Mathlib.Tactic.Common
import Mathlib.Tactic.Linarith
import Mathlib.Tactic.Positivity
import Mathlib.Tactic.Ring

/-! # First crossings

A quantity over time reaches a bound first at one instant: before it, it stays below.

* `accumulated f` : what has come together at an instant when `f i` comes evenly over the `i`-th
  step,
* `firstReaches_accumulated` : it reaches a bound first within the step whose sum passes the bound,
* `firstReaches_line` : a rising line does where it meets the bound.
-/

namespace Crossing

variable {K : Type*} [Field K] [LinearOrder K] [IsStrictOrderedRing K]

/-- The quantity is below the bound before `d` and has reached it at `d`. -/
structure FirstReaches (f : K → K) (c d : K) : Prop where
  before : ∀ t, 0 ≤ t → t < d → f t < c
  reached : f d = c

/-- A rising line reaches a bound first where it meets it. -/
theorem firstReaches_line {level slope c : K} (hslope : 0 < slope) :
    FirstReaches (fun t => level + slope * t) c ((c - level) / slope) where
  before := by
    intro t _ ht
    rw [lt_div_iff₀ hslope] at ht
    have := mul_comm t slope
    linarith
  reached := by
    have hne : slope ≠ 0 := hslope.ne'
    rw [mul_div_cancel₀ _ hne]
    ring

section Accumulated

variable [FloorSemiring K] (f : ℕ → K)

/-- What has come together by `t`: the full steps, and the part of the step under way. -/
def accumulated (t : K) : K := ∑ i ∈ Finset.range ⌊t⌋₊, f i + (t - ⌊t⌋₊) * f ⌊t⌋₊

variable {f}

/-- Within a step it grows evenly. -/
theorem accumulated_of_mem {i : ℕ} {t : K} (h : (i : K) ≤ t) (h' : t ≤ i + 1) :
    accumulated f t = ∑ j ∈ Finset.range i, f j + (t - i) * f i := by
  rcases h'.lt_or_eq with hlt | rfl
  · have hfloor : ⌊t⌋₊ = i := by
      rw [Nat.floor_eq_iff ((Nat.cast_nonneg i).trans h)]
      exact ⟨h, hlt⟩
    rw [accumulated, hfloor]
  · have hfloor : ⌊(i : K) + 1⌋₊ = i + 1 := by
      exact_mod_cast Nat.floor_natCast (i + 1)
    rw [accumulated, hfloor, Finset.sum_range_succ]
    push_cast
    ring

theorem accumulated_natCast (n : ℕ) : accumulated f (n : K) = ∑ i ∈ Finset.range n, f i := by
  rw [accumulated_of_mem le_rfl (by linarith)]
  ring

/-- Before the end of a step less has come together than at its end. -/
theorem accumulated_le_sum (hf : ∀ i, 0 ≤ f i) {t : K} {n : ℕ} (ht : 0 ≤ t) (hn : t ≤ n) :
    accumulated f t ≤ ∑ i ∈ Finset.range n, f i := by
  have hhi := Nat.lt_floor_add_one t
  rcases hn.lt_or_eq with hlt | rfl
  · have hfloor : ⌊t⌋₊ + 1 ≤ n := (Nat.floor_lt ht).2 hlt
    have hpart : (t - ⌊t⌋₊) * f ⌊t⌋₊ ≤ 1 * f ⌊t⌋₊ :=
      mul_le_mul_of_nonneg_right (by linarith) (hf _)
    have hsum : ∑ i ∈ Finset.range (⌊t⌋₊ + 1), f i ≤ ∑ i ∈ Finset.range n, f i :=
      Finset.sum_le_sum_of_subset_of_nonneg (Finset.range_mono hfloor) fun i _ _ => hf i
    rw [Finset.sum_range_succ] at hsum
    rw [accumulated]
    linarith
  · exact (accumulated_natCast n).le

/-- The bound is reached first within the step whose sum passes it, where the part that is missing
has come in. -/
theorem firstReaches_accumulated (hf : ∀ i, 0 ≤ f i) {i : ℕ} {c : K}
    (hlo : ∑ j ∈ Finset.range i, f j < c) (hhi : c ≤ ∑ j ∈ Finset.range i, f j + f i) :
    FirstReaches (accumulated f) c (i + (c - ∑ j ∈ Finset.range i, f j) / f i) ∧
      (c - ∑ j ∈ Finset.range i, f j) / f i ∈ Set.Ioc 0 1 := by
  have hpos : 0 < f i := by linarith
  have hpart : 0 < (c - ∑ j ∈ Finset.range i, f j) / f i := div_pos (by linarith) hpos
  have hone : (c - ∑ j ∈ Finset.range i, f j) / f i ≤ 1 := (div_le_one hpos).2 (by linarith)
  have hmul : (c - ∑ j ∈ Finset.range i, f j) / f i * f i = c - ∑ j ∈ Finset.range i, f j :=
    div_mul_cancel₀ _ hpos.ne'
  generalize (c - ∑ j ∈ Finset.range i, f j) / f i = x at hpart hone hmul ⊢
  refine ⟨⟨?_, ?_⟩, hpart, hone⟩
  · intro t ht htd
    rcases le_total t i with hti | hti
    · exact (accumulated_le_sum hf ht hti).trans_lt hlo
    · rw [accumulated_of_mem hti (by linarith)]
      have hlt : (t - i) * f i < x * f i := mul_lt_mul_of_pos_right (by linarith) hpos
      linarith
  · rw [accumulated_of_mem (by linarith) (by linarith), add_sub_cancel_left, hmul]
    ring

end Accumulated

end Crossing
