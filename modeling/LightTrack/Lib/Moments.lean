import Mathlib.Algebra.BigOperators.Fin
import Mathlib.Algebra.BigOperators.Group.List.Basic
import Mathlib.Algebra.BigOperators.Ring.Finset
import Mathlib.Algebra.CharZero.Defs
import Mathlib.Algebra.Field.Basic
import Mathlib.Algebra.Order.BigOperators.Group.List
import Mathlib.Algebra.Order.BigOperators.Ring.Finset
import Mathlib.Algebra.Order.Field.Basic
import Mathlib.Tactic.FieldSimp
import Mathlib.Tactic.Ring

/-! # Means and variances of pooled populations

The mean and the variance of a population, and of several put together.

* `sum_sq` : what the squares of a population add up to,
* `mean_flatten`, `variance_flatten` : the moments of a pooled population from those of its parts,
* `sq_mean_le`, `abs_mean_le`, `sum_mul_sq_le` : how means of squares, sizes and products compare.
-/

namespace Moments

section Field

variable {K : Type*} [Field K]

/-- The mean of a population. -/
def mean (xs : List K) : K := xs.sum / xs.length

/-- The variance of a population. -/
def variance (xs : List K) : K := (xs.map fun x => (x - mean xs) ^ 2).sum / xs.length

/-- Squares about a point. -/
theorem sum_sub_sq (xs : List K) (a : K) : (xs.map fun x => (x - a) ^ 2).sum =
    (xs.map fun x => x ^ 2).sum - 2 * a * xs.sum + xs.length * a ^ 2 := by
  induction xs with
  | nil => simp
  | cons x xs ih =>
    rw [List.map_cons, List.sum_cons, ih, List.map_cons, List.sum_cons, List.sum_cons,
      List.length_cons, Nat.cast_succ]
    ring

variable [CharZero K]

theorem length_mul_mean (xs : List K) : xs.length * mean xs = xs.sum := by
  cases xs with
  | nil =>
    rw [List.length_nil, Nat.cast_zero, zero_mul]
    rfl
  | cons x xs =>
    have hne : (((x :: xs).length : ℕ) : K) ≠ 0 := Nat.cast_ne_zero.2 (Nat.succ_ne_zero _)
    exact mul_div_cancel₀ _ hne

/-- The squares of a population add up to its variance and the square of its mean. -/
theorem sum_sq (xs : List K) :
    (xs.map fun x => x ^ 2).sum = xs.length * (variance xs + mean xs ^ 2) := by
  have hvar : xs.length * variance xs = (xs.map fun x => (x - mean xs) ^ 2).sum := by
    cases xs with
    | nil =>
      rw [List.length_nil, Nat.cast_zero, zero_mul]
      rfl
    | cons x xs =>
      have hne : (((x :: xs).length : ℕ) : K) ≠ 0 := Nat.cast_ne_zero.2 (Nat.succ_ne_zero _)
      exact mul_div_cancel₀ _ hne
  rw [mul_add, hvar, sum_sub_sq, ← length_mul_mean xs]
  ring

/-- The mean of the squares. -/
theorem mean_sq (xs : List K) : mean (xs.map fun x => x ^ 2) = variance xs + mean xs ^ 2 := by
  rw [mean, sum_sq, List.length_map]
  cases xs with
  | nil => simp [variance, mean]
  | cons x xs =>
    have hne : (((x :: xs).length : ℕ) : K) ≠ 0 := Nat.cast_ne_zero.2 (Nat.succ_ne_zero _)
    rw [mul_div_cancel_left₀ _ hne]

/-- The mean of a pooled population. -/
theorem mean_flatten (parts : List (List K)) : mean parts.flatten =
    (parts.map fun p : List K => p.length * mean p).sum / (parts.map fun p => (p.length : K)).sum := by
  unfold mean
  rw [List.sum_flatten, List.length_flatten, Nat.cast_list_sum, List.map_map]
  refine congrArg₂ _ (congrArg List.sum (List.map_congr_left fun p _ => ?_)) rfl
  exact (length_mul_mean p).symm

/-- The variance of a pooled population. -/
theorem variance_flatten (parts : List (List K)) : variance parts.flatten =
    (parts.map fun p : List K => p.length * (variance p + mean p ^ 2)).sum /
      (parts.map fun p => (p.length : K)).sum - mean parts.flatten ^ 2 := by
  have hsquares : (parts.flatten.map fun x => x ^ 2).sum =
      (parts.map fun p : List K => p.length * (variance p + mean p ^ 2)).sum := by
    rw [List.map_flatten, List.sum_flatten, List.map_map]
    exact congrArg List.sum (List.map_congr_left fun p _ => sum_sq p)
  have hlength : ((parts.flatten.length : ℕ) : K) = (parts.map fun p => (p.length : K)).sum := by
    rw [List.length_flatten, Nat.cast_list_sum, List.map_map]
    rfl
  have hmean := mean_sq parts.flatten
  rw [mean, List.length_map] at hmean
  rw [← hsquares, ← hlength, hmean, add_sub_cancel_right]

end Field

section Ordered

variable {K : Type*} [Field K] [LinearOrder K] [IsStrictOrderedRing K]

theorem variance_nonneg (xs : List K) : 0 ≤ variance xs := by
  refine div_nonneg (List.sum_nonneg ?_) (Nat.cast_nonneg _)
  intro y hy
  rcases List.mem_map.1 hy with ⟨x, -, rfl⟩
  exact sq_nonneg _

/-- The square of a mean is at most the mean of the squares. -/
theorem sq_mean_le (xs : List K) : mean xs ^ 2 ≤ mean (xs.map fun x => x ^ 2) := by
  rw [mean_sq]
  exact le_add_of_nonneg_left (variance_nonneg xs)

/-- The mean is no greater in size than that of the sizes. -/
theorem abs_mean_le (xs : List K) : |mean xs| ≤ mean (xs.map fun x => |x|) := by
  unfold mean
  rw [abs_div, Nat.abs_cast, List.length_map]
  refine div_le_div_of_nonneg_right ?_ (Nat.cast_nonneg _)
  induction xs with
  | nil => rw [List.map_nil, List.sum_nil, abs_zero]
  | cons x xs ih =>
    rw [List.map_cons, List.sum_cons, List.sum_cons]
    exact (abs_add_le _ _).trans (add_le_add_right ih _)

/-- Cauchy and Schwarz, over a list. -/
theorem sum_mul_sq_le {ι : Type*} (l : List ι) (f g : ι → K) :
    (l.map fun i => f i * g i).sum ^ 2 ≤
      (l.map fun i => f i ^ 2).sum * (l.map fun i => g i ^ 2).sum := by
  rw [← Fin.sum_univ_fun_getElem, ← Fin.sum_univ_fun_getElem, ← Fin.sum_univ_fun_getElem]
  exact Finset.sum_mul_sq_le_sq_mul_sq _ _ _

end Ordered

end Moments
