import Mathlib.Algebra.Order.Ring.Int
import Mathlib.Data.List.Basic
import Mathlib.Tactic.Linarith
import Mathlib.Tactic.Ring

/-! # Even grids of integers

`points span steps` divides `span` into `steps` parts, each rounded down: the points
`span * k / steps` for `k` from one to `steps`.  With no more steps than the span is long the grid

* `points_increasing` : increases strictly,
* `mem_points_bounds` : stays between its first part and the span,
* `getLast_points`, `first_mem_points` : ends at the span and has its first part.
-/

namespace Grid

/-- The points of a grid. -/
def points (span : Int) (steps : ℕ) : List Int :=
  (List.range steps).map fun i => span * (i + 1 : ℕ) / steps

@[simp] theorem length_points (span : Int) (steps : ℕ) : (points span steps).length = steps := by
  unfold points
  rw [List.length_map, List.length_range]

theorem mem_points_iff {span p : Int} {steps : ℕ} :
    p ∈ points span steps ↔ ∃ i < steps, span * (i + 1 : ℕ) / steps = p := by
  unfold points
  simp only [List.mem_map, List.mem_range]

section Wide

variable {span : Int} {steps : ℕ}

/-- One part further is at least one more, where a part is not shorter than one. -/
theorem part_lt (hpos : 0 < steps) (hwide : (steps : Int) ≤ span) {i j : ℕ} (hij : i < j) :
    span * i / steps < span * j / steps := by
  have hsteps : (0 : Int) < steps := by exact_mod_cast hpos
  have hij' : (i : Int) + 1 ≤ j := by exact_mod_cast hij
  have hgap : span * i + steps ≤ span * j := by nlinarith
  have hstep : span * i / steps + 1 = (span * i + steps) / steps := by
    rw [Int.add_ediv_of_dvd_right (dvd_refl _), Int.ediv_self hsteps.ne']
  have hle := Int.ediv_le_ediv hsteps hgap
  omega

theorem points_increasing (hpos : 0 < steps) (hwide : (steps : Int) ≤ span) :
    (points span steps).Pairwise (· < ·) := by
  unfold points
  rw [List.pairwise_map]
  refine List.pairwise_lt_range.imp ?_
  intro i j hij
  exact part_lt hpos hwide (Nat.succ_lt_succ hij)

/-- The grid starts one part in, and ends at the span. -/
theorem mem_points_bounds (hpos : 0 < steps) (hwide : (steps : Int) ≤ span) {p : Int}
    (hp : p ∈ points span steps) : 0 < p ∧ span / steps ≤ p ∧ p ≤ span := by
  rcases mem_points_iff.1 hp with ⟨i, hi, rfl⟩
  have hsteps : (0 : Int) < steps := by exact_mod_cast hpos
  have hi' : ((i + 1 : ℕ) : Int) ≤ steps := by exact_mod_cast hi
  have hone : (1 : Int) ≤ ((i + 1 : ℕ) : Int) := by exact_mod_cast Nat.succ_pos i
  have hspan : 0 ≤ span := hsteps.le.trans hwide
  have hzero := part_lt hpos hwide (Nat.succ_pos i)
  rw [Nat.cast_zero, mul_zero, Int.zero_ediv] at hzero
  refine ⟨hzero, ?_, ?_⟩
  · exact Int.ediv_le_ediv hsteps (by nlinarith)
  · exact Int.ediv_le_of_le_mul hsteps (by nlinarith)

theorem getLast_points (hpos : 0 < steps) : (points span steps).getLast? = some span := by
  have hsteps : (steps : Int) ≠ 0 := by exact_mod_cast hpos.ne'
  rcases Nat.exists_eq_succ_of_ne_zero hpos.ne' with ⟨n, rfl⟩
  unfold points
  rw [List.range_succ, List.map_append, List.map_singleton, List.getLast?_append_of_ne_nil _
    (List.cons_ne_nil _ _)]
  simp only [List.getLast?_singleton, Option.some.injEq]
  exact Int.mul_ediv_cancel _ hsteps

/-- The first part is a point. -/
theorem first_mem_points (hpos : 0 < steps) : span / steps ∈ points span steps := by
  refine mem_points_iff.2 ⟨0, hpos, ?_⟩
  rw [zero_add, Nat.cast_one, mul_one]

end Wide

end Grid
