import Mathlib.Algebra.BigOperators.Group.List.Basic
import Mathlib.Algebra.Order.AddGroupWithTop
import Mathlib.Algebra.Order.Field.Basic
import Mathlib.Data.Int.Cast.Lemmas
import Mathlib.Tactic.FieldSimp
import Mathlib.Tactic.Linarith
import Mathlib.Tactic.Ring

/-! # Sums of rounded figures

A rounding `ρ` takes every figure to the nearest multiple of `unit`, halves away from
zero.  Adding rounded figures is not rounding the sum: the two differ by the errors.

* `round_sum_iff` : they agree exactly if the errors `Settle`, that is, stay below
  half a unit, or are half a unit in the direction of the sum,
* `round_sum_top_iff` : the same where a figure may be missing, and a sum with a
  missing figure is missing.
-/

namespace Rounding

variable {α : Type*} [Field α] [LinearOrder α]

/-- An error of `e` about `x` that rounding takes back: twice the error is below a unit, or a unit in
the direction of `x`. -/
def Settles (unit e x : α) : Prop := |e| + |e| < unit ∨ |e| + |e| = unit ∧ 0 < e * x

instance (unit e x : α) : Decidable (Settles unit e x) := inferInstanceAs (Decidable (_ ∨ _ ∧ _))

theorem settles_neg {unit e x : α} : Settles unit (-e) (-x) ↔ Settles unit e x := by
  unfold Settles
  rw [abs_neg, neg_mul_neg]

/-- Rounding to multiples of `unit`. -/
structure Rounds (unit : α) (ρ : α → α) : Prop where
  pos : 0 < unit
  grid : ∀ x, ∃ n : Int, ρ x = n * unit
  eq_iff : ∀ (x : α) (n : Int), ρ x = n * unit ↔ Settles unit (n * unit - x) x

/-- The errors of a list of figures, added up. -/
def drift (ρ : α → α) (xs : List α) : α := (xs.map fun x => ρ x - x).sum

omit [LinearOrder α] in
theorem sum_add_drift (ρ : α → α) (xs : List α) : xs.sum + drift ρ xs = (xs.map ρ).sum := by
  unfold drift
  induction xs with
  | nil => rw [List.map_nil, List.map_nil, List.sum_nil, add_zero]
  | cons x xs ih =>
    rw [List.map_cons, List.map_cons, List.sum_cons, List.sum_cons, List.sum_cons, ← ih]
    ring

namespace Rounds

variable {unit : α} {ρ : α → α} (h : Rounds unit ρ)
include h

theorem neg (x : α) : ρ (-x) = -ρ x := by
  obtain ⟨n, hn⟩ := h.grid x
  have hsettles := (h.eq_iff x n).1 hn
  have hneg : ρ (-x) = ((-n : Int) : α) * unit := by
    rw [h.eq_iff, ← settles_neg]
    have he : -(((-n : Int) : α) * unit - -x) = n * unit - x := by
      push_cast
      ring
    rw [he, neg_neg]
    exact hsettles
  rw [hneg, hn]
  push_cast
  ring

/-- Rounded figures add up to a multiple of the unit. -/
theorem sum_grid (xs : List α) : ∃ n : Int, (xs.map ρ).sum = n * unit := by
  induction xs with
  | nil =>
    refine ⟨0, ?_⟩
    rw [List.map_nil, List.sum_nil, Int.cast_zero, zero_mul]
  | cons x xs ih =>
    obtain ⟨m, hm⟩ := ih
    obtain ⟨n, hn⟩ := h.grid x
    refine ⟨n + m, ?_⟩
    rw [List.map_cons, List.sum_cons, hn, hm]
    push_cast
    ring

/-- **Rounded figures add up to the rounded sum** exactly if their errors settle. -/
theorem round_sum_iff (xs : List α) :
    (xs.map ρ).sum = ρ xs.sum ↔ Settles unit (drift ρ xs) xs.sum := by
  obtain ⟨n, hn⟩ := h.sum_grid xs
  have herr : drift ρ xs = n * unit - xs.sum := by
    rw [← hn, ← sum_add_drift]
    ring
  rw [hn, eq_comm, h.eq_iff, herr]

section Ordered

variable [IsStrictOrderedRing α]

/-- A multiple of the unit is rounded already. -/
theorem grid_fixed (n : Int) : ρ (n * unit) = n * unit := by
  rw [h.eq_iff, sub_self]
  left
  rw [abs_zero, add_zero]
  exact h.pos

/-- Rounding a sum of rounded figures changes nothing. -/
theorem sum_fixed (xs : List α) : ρ (xs.map ρ).sum = (xs.map ρ).sum := by
  obtain ⟨n, hn⟩ := h.sum_grid xs
  rw [hn, h.grid_fixed]

end Ordered

end Rounds

/-! ## Missing figures -/

section Missing

variable {β : Type*}

/-- A figure is missing, or the figures are numbers. -/
theorem top_mem_or_coe (xs : List (WithTop β)) :
    ⊤ ∈ xs ∨ ∃ ys : List β, xs = ys.map WithTop.some := by
  induction xs with
  | nil => exact .inr ⟨[], rfl⟩
  | cons x xs ih =>
    rcases ih with htop | ⟨ys, rfl⟩
    · exact .inl (List.mem_cons_of_mem _ htop)
    · cases x with
      | top => exact .inl List.mem_cons_self
      | coe x => exact .inr ⟨x :: ys, rfl⟩

variable [AddMonoid β]

theorem sum_eq_top {xs : List (WithTop β)} (h : ⊤ ∈ xs) : xs.sum = ⊤ := by
  induction xs with
  | nil => exact absurd h List.not_mem_nil
  | cons x xs ih =>
    rw [List.sum_cons]
    rcases List.mem_cons.1 h with rfl | h
    · exact WithTop.top_add _
    · rw [ih h, WithTop.add_top]

theorem sum_coe (ys : List β) : (ys.map WithTop.some).sum = (ys.sum : β) := by
  induction ys with
  | nil => rfl
  | cons y ys ih => rw [List.map_cons, List.sum_cons, ih, List.sum_cons, WithTop.coe_add]

theorem sum_map_coe (ρ : β → β) (ys : List β) :
    ((ys.map WithTop.some).map (WithTop.map ρ)).sum = ((ys.map ρ).sum : β) := by
  rw [← sum_coe, List.map_map, List.map_map]
  rfl

/-- The errors of figures that are numbers settle. -/
def Settled (unit : α) (ρ : α → α) (xs : List (WithTop α)) : Prop :=
  ∀ ys : List α, xs = ys.map WithTop.some → Settles unit (drift ρ ys) ys.sum

theorem round_sum_top_iff {unit : α} {ρ : α → α} (h : Rounds unit ρ) (xs : List (WithTop α)) :
    (xs.map (WithTop.map ρ)).sum = xs.sum.map ρ ↔ Settled unit ρ xs := by
  unfold Settled
  rcases top_mem_or_coe xs with htop | ⟨ys, rfl⟩
  · have hmap : ⊤ ∈ xs.map (WithTop.map ρ) := List.mem_map_of_mem htop
    rw [sum_eq_top htop, sum_eq_top hmap]
    refine iff_of_true rfl ?_
    rintro ys rfl
    obtain ⟨y, -, hy⟩ := List.mem_map.1 htop
    exact absurd hy WithTop.coe_ne_top
  · rw [sum_map_coe, sum_coe, WithTop.map_coe, WithTop.coe_inj, h.round_sum_iff]
    constructor
    · intro hsettles zs hzs
      rwa [List.map_injective_iff.2 WithTop.coe_injective hzs] at hsettles
    · intro hsettled
      exact hsettled ys rfl

theorem sum_fixed_top [IsStrictOrderedRing α] {unit : α} {ρ : α → α} (h : Rounds unit ρ)
    (xs : List (WithTop α)) :
    (xs.map (WithTop.map ρ)).sum.map ρ = (xs.map (WithTop.map ρ)).sum := by
  rcases top_mem_or_coe xs with htop | ⟨ys, rfl⟩
  · have hmap : ⊤ ∈ xs.map (WithTop.map ρ) := List.mem_map_of_mem htop
    rw [sum_eq_top hmap]
    rfl
  · rw [sum_map_coe, WithTop.map_coe, h.sum_fixed]

end Missing

end Rounding
