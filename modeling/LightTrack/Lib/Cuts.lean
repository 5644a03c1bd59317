import Mathlib.Algebra.BigOperators.Group.List.Basic
import Mathlib.Algebra.Order.Ring.Int
import Mathlib.Tactic.LinearCombination
import Mathlib.Tactic.Linarith
import Mathlib.Tactic.Ring

/-! # Intervals measured in whole units, piece by piece

`units u a b s t` is the length of the part of `[a, b)` inside `[s, t)` in units of
`u`, rounded down.  Measured over the consecutive cells of a grid whose width is a
multiple of the unit, the pieces of an interval lose at most one unit.

* `sum_units` : they lose it exactly if the part starts and stops in different
  cells, starts off the unit, and stops at least as far off the unit,
* `sum_cells` : what is `Additive` over adjacent windows loses nothing,
* `units_add_iff` : one cut loses nothing unless what it leaves on both sides makes up a unit.
-/

namespace Cuts

/-- Whole units of `u` in the part of `[a, b)` inside `[s, t)`. -/
def units (u a b s t : Int) : Int :=
  if min b t ≤ max a s then 0 else (min b t - max a s) / u

theorem units_nonneg {u : Int} (hu : 0 < u) (a b s t : Int) : 0 ≤ units u a b s t := by
  unfold units
  split_ifs with hmiss
  · exact le_rfl
  · exact Int.ediv_nonneg (sub_nonneg.2 (not_le.1 hmiss).le) hu.le

/-- A wider window holds no less. -/
theorem units_mono {u : Int} (hu : 0 < u) {a b s s' t t' : Int} (hs : s ≤ s') (ht : t' ≤ t) :
    units u a b s' t' ≤ units u a b s t := by
  by_cases hmiss : min b t' ≤ max a s'
  · rw [show units u a b s' t' = 0 from if_pos hmiss]
    exact units_nonneg hu a b s t
  · have hwide : ¬ min b t ≤ max a s := by omega
    unfold units
    rw [if_neg hmiss, if_neg hwide]
    exact Int.ediv_le_ediv hu (by omega)

/-- An interval misses a window that it misses on both sides of a cut. -/
theorem misses_iff {a b s c t : Int} (hab : a < b) (hsc : s ≤ c) (hct : c ≤ t) :
    min b t ≤ max a s ↔ min b c ≤ max a s ∧ min b t ≤ max a c := by
  omega

/-- The part from `x` to `y` loses a unit when the cells of width `w` cut it. -/
def Loses (u w x y : Int) : Prop := x / w < y / w ∧ 0 < x % u ∧ x % u ≤ y % u

instance (u w x y : Int) : Decidable (Loses u w x y) :=
  inferInstanceAs (Decidable (_ ∧ _ ∧ _))

/-- The unit a part loses. -/
def lost (u w x y : Int) : Int := if Loses u w x y then 1 else 0

section Split

variable {u : Int}

/-- A length split at a multiple of the unit. -/
theorem ediv_split (hu : 0 < u) {c : Int} (hc : u ∣ c) (x y : Int) :
    (c - x) / u + (y - c) / u + (if 0 < x % u ∧ x % u ≤ y % u then 1 else 0) = (y - x) / u := by
  obtain ⟨q, rfl⟩ := hc
  have hx := Int.mul_ediv_add_emod x u
  have hy := Int.mul_ediv_add_emod y u
  have hx₀ := Int.emod_nonneg x hu.ne'
  have hy₀ := Int.emod_nonneg y hu.ne'
  have hx₁ := Int.emod_lt_of_pos x hu
  have hy₁ := Int.emod_lt_of_pos y hu
  generalize x / u = qx at hx
  generalize y / u = qy at hy
  generalize x % u = rx at hx hx₀ hx₁
  generalize y % u = ry at hy hy₀ hy₁
  subst hx hy
  -- the three quotients, from their quotients and the remainders left over
  have hhead : (u * q - (u * qx + rx)) / u = q - qx + -rx / u := by
    rw [show u * q - (u * qx + rx) = -rx + u * (q - qx) by ring, Int.add_mul_ediv_left _ _ hu.ne']
    ring
  have htail : (u * qy + ry - u * q) / u = qy - q := by
    rw [show u * qy + ry - u * q = ry + u * (qy - q) by ring, Int.add_mul_ediv_left _ _ hu.ne',
      Int.ediv_eq_zero_of_lt hy₀ hy₁, zero_add]
  have hwhole : (u * qy + ry - (u * qx + rx)) / u = qy - qx + (ry - rx) / u := by
    rw [show u * qy + ry - (u * qx + rx) = ry - rx + u * (qy - qx) by ring,
      Int.add_mul_ediv_left _ _ hu.ne']
    ring
  have hborrow : ∀ r, -u ≤ r → r < 0 → r / u = -1 := by
    intro r hlow hneg
    rw [show r = r + u + u * -1 by ring, Int.add_mul_ediv_left _ _ hu.ne',
      Int.ediv_eq_zero_of_lt (by omega) (by omega), zero_add]
  rw [hhead, htail, hwhole]
  by_cases hpos : 0 < rx
  · rw [hborrow (-rx) (by omega) (by omega)]
    by_cases hle : rx ≤ ry
    · rw [if_pos ⟨hpos, hle⟩, Int.ediv_eq_zero_of_lt (by omega) (by omega)]
      ring
    · rw [if_neg fun h => hle h.2, hborrow (ry - rx) (by omega) (by omega)]
      ring
  · have hzero : rx = 0 := by omega
    subst hzero
    rw [if_neg fun h => hpos h.1, neg_zero, Int.zero_ediv, sub_zero,
      Int.ediv_eq_zero_of_lt hy₀ hy₁]
    ring

end Split

section Grid

variable {u w : Int}

/-- What starts and stops in one cell loses nothing. -/
theorem not_loses_of_cell (hdvd : u ∣ w) (hw : 0 < w) {q x y : Int} (hx : w * q ≤ x)
    (hy : y ≤ w * (q + 1)) : ¬ Loses u w x y := by
  rintro ⟨hcells, hpos, hle⟩
  have hqx : q ≤ x / w := (Int.le_ediv_iff_mul_le hw).2 (by rwa [mul_comm])
  have hlow : w * (q + 1) ≤ y := by
    rw [mul_comm]
    exact (Int.le_ediv_iff_mul_le hw).1 (by omega)
  have hyw : y = w * (q + 1) := le_antisymm hy hlow
  have hzero : y % u = 0 := by
    rw [hyw]
    exact Int.emod_eq_zero_of_dvd (hdvd.mul_right _)
  omega

theorem not_loses_of_le {x y : Int} (hw : 0 < w) (h : y ≤ x) : ¬ Loses u w x y := by
  rintro ⟨hcells, -, -⟩
  exact absurd (Int.ediv_le_ediv hw h) (not_le.2 hcells)

/-- What stops on the grid loses nothing. -/
theorem not_loses_of_dvd {x y : Int} (h : u ∣ y) : ¬ Loses u w x y := by
  rintro ⟨-, hpos, hle⟩
  rw [Int.emod_eq_zero_of_dvd h] at hle
  omega

/-- One more cell at the end of a window. -/
theorem units_step (hu : 0 < u) (hw : 0 < w) (hdvd : u ∣ w) (a b i : Int) (n : ℕ) :
    units u a b (w * i) (w * (i + n)) + lost u w (max a (w * i)) (min b (w * (i + (n + 1 : ℕ)))) +
        units u a b (w * (i + n)) (w * (i + (n + 1 : ℕ))) =
      units u a b (w * i) (w * (i + (n + 1 : ℕ))) +
        lost u w (max a (w * i)) (min b (w * (i + n))) := by
  have hnext : w * (i + (n + 1 : ℕ)) = w * (i + n) + w := by push_cast; ring
  have hcell : w * (i + (n + 1 : ℕ)) = w * (i + n + 1) := by push_cast; ring
  have hc : u ∣ w * (i + n) := hdvd.mul_right _
  have hfirst : w * i ≤ w * (i + n) := by
    apply mul_le_mul_of_nonneg_left _ hw.le
    omega
  unfold units lost
  rcases le_or_gt b (w * (i + n)) with hstop | hstop
  · -- it stops before the new cell
    have hmin : min b (w * (i + (n + 1 : ℕ))) = min b (w * (i + n)) := by omega
    rw [hmin, if_pos (show min b (w * (i + n)) ≤ max a (w * (i + n)) by omega)]
    ring
  · rcases le_or_gt (w * (i + n)) (max a (w * i)) with hstart | hstart
    · -- it starts in the new cell
      have hmax : max a (w * (i + n)) = max a (w * i) := by omega
      have hold : ¬ Loses u w (max a (w * i)) (min b (w * (i + n))) :=
        not_loses_of_le hw (by omega)
      have hnew : ¬ Loses u w (max a (w * i)) (min b (w * (i + (n + 1 : ℕ)))) :=
        not_loses_of_cell hdvd hw hstart (by rw [hcell]; exact min_le_right _ _)
      rw [hmax, if_neg hold, if_neg hnew,
        if_pos (show min b (w * (i + n)) ≤ max a (w * i) by omega)]
      ring
    · -- the new cell's first instant cuts it
      have hmin : min b (w * (i + n)) = w * (i + n) := by omega
      have hmax : max a (w * (i + n)) = w * (i + n) := by omega
      have hold : ¬ Loses u w (max a (w * i)) (min b (w * (i + n))) := by
        rw [hmin]
        exact not_loses_of_dvd hc
      have hlt : w * (i + n) < min b (w * (i + (n + 1 : ℕ))) := by omega
      have hcells : max a (w * i) / w < min b (w * (i + (n + 1 : ℕ))) / w := by
        have hx : max a (w * i) / w < i + n :=
          (Int.ediv_lt_iff_lt_mul hw).2 (by rwa [mul_comm (i + (n : Int))])
        have hy : i + n ≤ min b (w * (i + (n + 1 : ℕ))) / w :=
          (Int.le_ediv_iff_mul_le hw).2 (by rw [mul_comm (i + (n : Int))]; exact hlt.le)
        omega
      have hsplit := ediv_split hu hc (max a (w * i)) (min b (w * (i + (n + 1 : ℕ))))
      have hiff : Loses u w (max a (w * i)) (min b (w * (i + (n + 1 : ℕ)))) ↔
          0 < max a (w * i) % u ∧ max a (w * i) % u ≤ min b (w * (i + (n + 1 : ℕ))) % u :=
        and_iff_right hcells
      rw [if_neg hold, if_congr hiff rfl rfl, hmin, hmax, if_neg (not_le.2 hstart),
        if_neg (not_le.2 hlt), if_neg (not_le.2 (hstart.trans hlt))]
      linear_combination hsplit

/-- **What cutting costs.**  The cells of a window measure an interval one unit short, where it
`Loses` one, and exactly otherwise. -/
theorem sum_units (hu : 0 < u) (hw : 0 < w) (hdvd : u ∣ w) (a b i : Int) (n : ℕ) :
    ((List.range n).map fun k : ℕ => units u a b (w * (i + k)) (w * (i + (k + 1 : ℕ)))).sum +
        lost u w (max a (w * i)) (min b (w * (i + n))) =
      units u a b (w * i) (w * (i + n)) := by
  induction n with
  | zero =>
    have hle : min b (w * (i + (0 : ℕ))) ≤ max a (w * i) := by
      rw [Nat.cast_zero, add_zero]
      exact (min_le_right _ _).trans (le_max_right _ _)
    unfold units lost
    rw [if_neg (not_loses_of_le hw hle), if_pos hle]
    rfl
  | succ n ih =>
    rw [List.range_succ, List.map_append, List.sum_append, List.map_singleton, List.sum_singleton]
    have hstep := units_step hu hw hdvd a b i n
    linear_combination ih + hstep

/-- What is over a window adds up over adjacent ones. -/
structure Additive {M : Type*} [AddMonoid M] (f : Int → Int → M) : Prop where
  self : ∀ s, f s s = 0
  step : ∀ s c t, s ≤ c → c ≤ t → f s c + f c t = f s t

/-- What is additive adds up over the cells of a window. -/
theorem sum_cells {M : Type*} [AddMonoid M] (hw : 0 < w) {f : Int → Int → M} (hf : Additive f)
    (i : Int) (n : ℕ) :
    ((List.range n).map fun k : ℕ => f (w * (i + k)) (w * (i + (k + 1 : ℕ)))).sum =
      f (w * i) (w * (i + n)) := by
  induction n with
  | zero => rw [Nat.cast_zero, add_zero, hf.self, List.range_zero, List.map_nil, List.sum_nil]
  | succ n ih =>
    rw [List.range_succ, List.map_append, List.sum_append, List.map_singleton, List.sum_singleton,
      ih]
    apply hf.step
    · exact mul_le_mul_of_nonneg_left (by omega) hw.le
    · exact mul_le_mul_of_nonneg_left (by omega) hw.le

end Grid

/-! ## One cut -/

/-- A cut within the part leaves fractions on its two sides that together make up a unit. -/
def Carries (u a b s c t : Int) : Prop :=
  max a s < c ∧ c < min b t ∧ u ≤ (c - max a s) % u + (min b t - c) % u

instance (u a b s c t : Int) : Decidable (Carries u a b s c t) :=
  inferInstanceAs (Decidable (_ ∧ _ ∧ _))

section One

variable {u : Int}

theorem ediv_add_iff (hu : 0 < u) (x y : Int) :
    x / u + y / u = (x + y) / u ↔ x % u + y % u < u := by
  have hx := Int.mul_ediv_add_emod x u
  have hy := Int.mul_ediv_add_emod y u
  have hx₀ := Int.emod_nonneg x hu.ne'
  have hy₀ := Int.emod_nonneg y hu.ne'
  have hparts : x + y = x % u + y % u + u * (x / u + y / u) := by linear_combination -hx - hy
  have hsum : (x + y) / u = x / u + y / u + (x % u + y % u) / u := by
    conv_lhs => rw [hparts, Int.add_mul_ediv_left _ _ hu.ne', add_comm]
  rw [hsum]
  constructor
  · intro h
    by_contra hge
    have hone : 1 ≤ (x % u + y % u) / u := (Int.le_ediv_iff_mul_le hu).2 (by omega)
    omega
  · intro h
    rw [Int.ediv_eq_zero_of_lt (by omega) h, add_zero]

/-- **Cut once, the part keeps its units** unless the fractions carry. -/
theorem units_add_iff (hu : 0 < u) {a b s c t : Int} (hab : a < b) (hsc : s ≤ c) (hct : c ≤ t) :
    units u a b s c + units u a b c t = units u a b s t ↔ ¬ Carries u a b s c t := by
  unfold units Carries
  by_cases hcut : max a s < c ∧ c < min b t
  · obtain ⟨hstart, hstop⟩ := hcut
    have hmin : min b c = c := by omega
    have hmax : max a c = c := by omega
    rw [hmin, hmax, if_neg (by omega), if_neg (by omega), if_neg (by omega), and_iff_right hstart,
      and_iff_right hstop, show min b t - max a s = (c - max a s) + (min b t - c) by ring,
      ediv_add_iff hu, not_le]
  · -- the cut misses the part, so one of the two sides holds all of it
    refine iff_of_true ?_ fun h => hcut ⟨h.1, h.2.1⟩
    rcases le_or_gt c (max a s) with hstart | hstart
    · have hmax : min b t ≤ max a s ∨ max a c = max a s := by omega
      rw [if_pos (show min b c ≤ max a s by omega), zero_add]
      rcases hmax with hmiss | hmax
      · rw [if_pos hmiss, if_pos (show min b t ≤ max a c by omega)]
      · rw [hmax]
    · have hmin : min b t ≤ max a s ∨ min b c = min b t := by omega
      rw [if_pos (show min b t ≤ max a c by omega), add_zero]
      rcases hmin with hmiss | hmin
      · rw [if_pos hmiss, if_pos (show min b c ≤ max a s by omega)]
      · rw [hmin]

end One

end Cuts
