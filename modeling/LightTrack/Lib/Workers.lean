import Mathlib.Algebra.BigOperators.Group.Finset.Basic
import Mathlib.Algebra.Order.BigOperators.Group.Finset
import Mathlib.Data.Fintype.BigOperators

/-! # Workers beside a shared total

A family of workers of which one moves at a time, and a total that each of them checks before it
starts and adds to when it is finished.

* `sum_update` : what one move does to a sum over the workers,
* `Under` : how far a total can run past the limit that was checked.
-/

namespace Workers

variable {ι W : Type*} [Fintype ι]

/-- Only the summand of the worker that moves changes. -/
theorem sum_update [DecidableEq ι] (ws : ι → W) (w : ι) (x : W) (f : ι → W → ℕ) :
    ∑ i, f i (Function.update ws w x i) + f w (ws w) = ∑ i, f i (ws i) + f w x := by
  have hrest : ∑ i ∈ Finset.univ.erase w, f i (Function.update ws w x i) =
      ∑ i ∈ Finset.univ.erase w, f i (ws i) := by
    refine Finset.sum_congr rfl ?_
    intro i hi
    rw [Function.update_of_ne (Finset.ne_of_mem_erase hi)]
  rw [← Finset.add_sum_erase _ _ (Finset.mem_univ w),
    ← Finset.add_sum_erase _ (fun i => f i (ws i)) (Finset.mem_univ w), hrest, Function.update_self]
  omega

/-- A worker's own part is in the sum. -/
theorem le_sum (ws : ι → W) (w : ι) (f : W → ℕ) : f (ws w) ≤ ∑ i, f (ws i) :=
  Finset.single_le_sum (f := fun i => f (ws i)) (fun _ _ => Nat.zero_le _) (Finset.mem_univ w)

/-- So are the parts of two of them. -/
theorem add_le_sum (ws : ι → W) {v w : ι} (h : v ≠ w) (f : W → ℕ) :
    f (ws v) + f (ws w) ≤ ∑ i, f (ws i) :=
  Finset.add_le_sum (f := fun i => f (ws i)) (fun _ _ => Nat.zero_le _) (Finset.mem_univ v)
    (Finset.mem_univ w) h

theorem sum_le_card (ws : ι → W) {f : W → ℕ} (h : ∀ x, f x ≤ 1) :
    ∑ i, f (ws i) ≤ Fintype.card ι := by
  calc ∑ i, f (ws i) ≤ ∑ _i : ι, 1 := Finset.sum_le_sum fun i _ => h (ws i)
    _ = Fintype.card ι := by simp

/-! ## A total that is checked first and added to later -/

/-- Of `jobs` workers `atWork` have found the total below the limit and have not added to it yet, and
none adds more than `most`. -/
def Under (jobs limit most total atWork : ℕ) : Prop :=
  total + atWork * most < max limit 1 + jobs * most

variable {jobs limit most total atWork : ℕ}

theorem Under.start : Under jobs limit most 0 0 := by
  unfold Under
  have h : 0 < max limit 1 := lt_max_of_lt_right Nat.one_pos
  omega

/-- A worker that finds the total below the limit starts. -/
theorem Under.enter (hbelow : total < limit) (hjobs : atWork + 1 ≤ jobs) :
    Under jobs limit most total (atWork + 1) := by
  unfold Under
  have hmost : (atWork + 1) * most ≤ jobs * most := Nat.mul_le_mul_right most hjobs
  have hlimit : total < max limit 1 := hbelow.trans_le (le_max_left limit 1)
  omega

/-- A worker that is finished adds its part. -/
theorem Under.leave (h : Under jobs limit most total (atWork + 1)) {part : ℕ} (hpart : part ≤ most) :
    Under jobs limit most (total + part) atWork := by
  unfold Under at h ⊢
  rw [Nat.add_one_mul] at h
  omega

theorem Under.total_lt (h : Under jobs limit most total atWork) :
    total < max limit 1 + jobs * most :=
  lt_of_le_of_lt (Nat.le_add_right total _) h

end Workers
