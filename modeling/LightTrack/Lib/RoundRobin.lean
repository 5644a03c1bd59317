import Mathlib.Algebra.BigOperators.Fin
import Mathlib.Algebra.BigOperators.Group.Finset.Basic
import Mathlib.Algebra.BigOperators.Group.Finset.Sigma
import Mathlib.Data.Fintype.BigOperators
import Mathlib.Tactic.Ring

/-! # Round robins

Every two of `n` players meet once.

* `sum_pairs_at` : what is counted in a player's own games, whichever side it is on,
* `length_pairs` : how many games there are.
-/

namespace RoundRobin

variable {n : ℕ}

/-- The players a player meets as the first of the two. -/
def later (i : Fin n) : List (Fin n) := (List.finRange n).filter (i < ·)

/-- Every two players, the earlier one first. -/
def pairs (n : ℕ) : List (Fin n × Fin n) :=
  (List.finRange n).flatMap fun i => (later i).map fun j => (i, j)

section Sum

variable {M : Type*} [AddCommMonoid M]

theorem sum_flatMap {α β : Type*} (l : List α) (f : α → List β) (g : β → M) :
    ((l.flatMap f).map g).sum = (l.map fun a => ((f a).map g).sum).sum := by
  rw [List.map_flatMap, List.flatMap, List.sum_flatten, List.map_map]
  rfl

theorem sum_finRange (g : Fin n → M) : ((List.finRange n).map g).sum = ∑ i, g i := by
  rw [← List.sum_toFinset g (List.nodup_finRange n), List.toFinset_finRange]

theorem sum_later (i : Fin n) (g : Fin n → M) :
    ((later i).map g).sum = ∑ j, if i < j then g j else 0 := by
  have hnodup : (later i).Nodup := (List.nodup_finRange n).filter _
  have hset : (later i).toFinset = Finset.univ.filter (i < ·) := by
    ext j
    simp [later]
  rw [← List.sum_toFinset g hnodup, hset, Finset.sum_filter]

theorem sum_pairs (f : Fin n × Fin n → M) :
    ((pairs n).map f).sum = ∑ i, ∑ j, if i < j then f (i, j) else 0 := by
  unfold pairs
  rw [sum_flatMap, sum_finRange]
  refine Finset.sum_congr rfl fun i _ => ?_
  rw [List.map_map, ← sum_later]
  rfl

/-- **A player meets every other one**, before it or behind it. -/
theorem sum_pairs_at (x : Fin n) (g : Fin n → M) :
    ((pairs n).map fun p => (if p.1 = x then g p.2 else 0) + if p.2 = x then g p.1 else 0).sum =
      ∑ y, if y ≠ x then g y else 0 := by
  -- the pairs with the player in front are those with a later one
  have hfirst : ((pairs n).map fun p => if p.1 = x then g p.2 else 0).sum =
      ∑ y, if x < y then g y else 0 := by
    rw [sum_pairs]
    have hinner : ∀ i, (∑ j, if i < j then (if i = x then g j else 0) else 0) =
        if i = x then ∑ j, (if x < j then g j else 0) else 0 := by
      intro i
      by_cases hi : i = x
      · subst hi
        simp
      · simp [hi]
    simp only [hinner]
    rw [Finset.sum_ite_eq' Finset.univ x, if_pos (Finset.mem_univ x)]
  -- and behind it, those with an earlier one
  have hsecond : ((pairs n).map fun p => if p.2 = x then g p.1 else 0).sum =
      ∑ y, if y < x then g y else 0 := by
    rw [sum_pairs]
    refine Finset.sum_congr rfl fun i _ => ?_
    have hinner : ∀ j, (if i < j then (if j = x then g i else 0) else 0) =
        if j = x then (if i < x then g i else 0) else 0 := by
      intro j
      by_cases hj : j = x
      · subst hj
        simp
      · simp [hj]
    simp only [hinner]
    rw [Finset.sum_ite_eq' Finset.univ x, if_pos (Finset.mem_univ x)]
  rw [List.sum_map_add, hfirst, hsecond, ← Finset.sum_add_distrib]
  refine Finset.sum_congr rfl fun y _ => ?_
  rcases lt_trichotomy x y with h | h | h
  · rw [if_pos h, if_neg h.asymm, if_pos h.ne', add_zero]
  · rw [h, if_neg (lt_irrefl y), if_neg (not_not.2 rfl), add_zero]
  · rw [if_neg h.asymm, if_pos h, if_pos h.ne, zero_add]

end Sum

/-- Each of `n` players meets `n - 1` others. -/
theorem sum_others (x : Fin n) : (∑ y, if y ≠ x then 1 else 0) = n - 1 := by
  rw [← Finset.sum_filter, Finset.sum_const, smul_eq_mul, mul_one, Finset.filter_ne',
    Finset.card_erase_of_mem (Finset.mem_univ x), Finset.card_univ, Fintype.card_fin]

/-- **There are as many games as unordered pairs.** -/
theorem length_pairs (n : ℕ) : 2 * (pairs n).length = n * (n - 1) := by
  -- every game is one of either of its players
  have hsides : ∀ p ∈ pairs n, (∑ x, ((if p.1 = x then 1 else 0) + if p.2 = x then 1 else 0)) = 2 := by
    intro p _
    rw [Finset.sum_add_distrib, Finset.sum_ite_eq, Finset.sum_ite_eq, if_pos (Finset.mem_univ _),
      if_pos (Finset.mem_univ _)]
  have hcount : ((pairs n).map fun p =>
      ∑ x, ((if p.1 = x then 1 else 0) + if p.2 = x then 1 else 0)).sum =
        ∑ x : Fin n, ∑ y, if y ≠ x then 1 else 0 := by
    have hswap : ∀ l : List (Fin n × Fin n),
        (l.map fun p => ∑ x, ((if p.1 = x then 1 else 0) + if p.2 = x then 1 else 0)).sum =
          ∑ x, (l.map fun p => (if p.1 = x then 1 else 0) + if p.2 = x then 1 else 0).sum := by
      intro l
      induction l with
      | nil => simp
      | cons p l ih => rw [List.map_cons, List.sum_cons, ih, ← Finset.sum_add_distrib]; rfl
    rw [hswap]
    exact Finset.sum_congr rfl fun x _ => sum_pairs_at x fun _ => 1
  rw [List.map_congr_left hsides, List.map_const', List.sum_replicate, smul_eq_mul] at hcount
  rw [mul_comm, hcount]
  simp only [sum_others]
  rw [Finset.sum_const, Finset.card_univ, Fintype.card_fin, smul_eq_mul]

end RoundRobin
