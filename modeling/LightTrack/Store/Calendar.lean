import LightTrack.Store.Codec
import Mathlib.Tactic.IntervalCases

/-! # The civil calendar

`civilFromDays` counts years from March, in eras of 400 years.  Here is its inverse, and the order
of days is the order of their dates.

* `yearOfEra_spec` : the year the division formula finds contains the day,
* `daysFromCivil_civilFromDays` : a date tells its day,
* `civilFromDays_lt` : a later day has a later date.
-/

namespace LightTrack

/-- The days of an era before its year `y`. -/
def daysBeforeYear (y : ℕ) : ℕ := 365 * y + y / 4 - y / 100

/-- The year of an era that contains its day `doe`. -/
def yearOfEra (doe : ℕ) : ℕ := (doe - doe / 1460 + doe / 36524 - doe / 146096) / 365

/-- A day of an era in its century, its block of four years, its year and its day of the year. -/
theorem exists_century_block (doe : ℕ) (h : doe < 146097) :
    ∃ c q k u : ℕ, doe = 36524 * c + 1461 * q + 365 * k + u ∧ c ≤ 3 ∧ q ≤ 24 ∧ k ≤ 3 ∧ u ≤ 365 ∧
      (u = 365 → k = 3) ∧ (c < 3 → 1461 * q + 365 * k + u < 36524) := by
  have hcentury : ∃ c r, doe = 36524 * c + r ∧ c ≤ 3 ∧ r ≤ 36524 ∧ (c < 3 → r < 36524) := by
    by_cases hlast : doe / 36524 ≤ 3
    · exact ⟨doe / 36524, doe % 36524, by omega, hlast, by omega, by omega⟩
    · exact ⟨3, doe - 36524 * 3, by omega, by omega, by omega, by omega⟩
  rcases hcentury with ⟨c, r, hdoe, hc, hr, hrc⟩
  by_cases hleap : r % 1461 = 1460
  · exact ⟨c, r / 1461, 3, 365, by omega, hc, by omega, by omega, by omega, by omega, by omega⟩
  · exact ⟨c, r / 1461, r % 1461 / 365, r % 1461 % 365, by omega, hc, by omega, by omega, by omega,
      by omega, by omega⟩

/-- The year that is found contains the day. -/
theorem yearOfEra_spec (doe : ℕ) (h : doe < 146097) :
    yearOfEra doe < 400 ∧ daysBeforeYear (yearOfEra doe) ≤ doe ∧
      doe ≤ daysBeforeYear (yearOfEra doe) + 365 ∧
      (yearOfEra doe < 399 → doe < daysBeforeYear (yearOfEra doe + 1)) := by
  rcases exists_century_block doe h with ⟨c, q, k, u, hdoe, hc, hq, hk, hu, hleap, hcentury⟩
  have hfour : doe / 1460 = 25 * c + q + (24 * c + q + 365 * k + u) / 1460 := by omega
  have hera : yearOfEra doe = 100 * c + 4 * q + k := by
    unfold yearOfEra
    rw [hfour]
    by_cases hlast : doe = 146096
    · omega
    · have hday : doe / 146096 = 0 := by omega
      have hcent : doe / 36524 = c := by omega
      rw [hday, hcent]
      omega
  rw [hera]
  unfold daysBeforeYear
  have h4 : (100 * c + 4 * q + k) / 4 = 25 * c + q := by omega
  have h100 : (100 * c + 4 * q + k) / 100 = c := by omega
  rw [h4, h100]
  refine ⟨by omega, by omega, by omega, ?_⟩
  intro hlt
  by_cases hk3 : k = 3
  · omega
  · have h4' : (100 * c + 4 * q + k + 1) / 4 = 25 * c + q := by omega
    have h100' : (100 * c + 4 * q + k + 1) / 100 = c := by omega
    rw [h4', h100']
    omega

theorem daysBeforeYear_mono {y y' : ℕ} (h : y ≤ y') : daysBeforeYear y ≤ daysBeforeYear y' := by
  induction h with
  | refl => exact le_rfl
  | step _ ih =>
    refine ih.trans ?_
    unfold daysBeforeYear
    omega

/-! ## Dates -/

/-- Leap years of the proleptic Gregorian calendar. -/
def isLeapYear (y : Int) : Bool := y % 4 == 0 && (y % 100 != 0 || y % 400 == 0)

/-- The days of a month. -/
def daysInMonth (y : Int) (m : ℕ) : ℕ :=
  match m with
  | 2 => if isLeapYear y then 29 else 28
  | 4 | 6 | 9 | 11 => 30
  | _ => 31

/-- `NaiveDate::from_ymd_opt` accepts the date. -/
def validDate (y : Int) (m d : ℕ) : Bool :=
  decide (1 ≤ m ∧ m ≤ 12) && decide (1 ≤ d ∧ d ≤ daysInMonth y m)

/-- The day of a civil date, counted from 1970-01-01. -/
def daysFromCivil (y : Int) (m d : ℕ) : Int :=
  let y := if m ≤ 2 then y - 1 else y
  let yoe := (y % 400).toNat
  let mp := if m ≤ 2 then m + 9 else m - 3
  y / 400 * 146097 + (daysBeforeYear yoe + ((153 * mp + 2) / 5 + d - 1) : ℕ) - 719468

/-- The date of a day in the calendar whose years start in March. -/
structure MarchDate (day : Int) where
  era : Int
  yoe : ℕ
  doy : ℕ
  mp : ℕ
  d : ℕ
  day_eq : day + 719468 = era * 146097 + (daysBeforeYear yoe + doy : ℕ)
  yoe_lt : yoe < 400
  doe_lt : daysBeforeYear yoe + doy < 146097
  year_end : yoe < 399 → daysBeforeYear yoe + doy < daysBeforeYear (yoe + 1)
  doy_eq : doy + 1 = (153 * mp + 2) / 5 + d
  doy_le : doy ≤ 365
  month_end : doy < (153 * (mp + 1) + 2) / 5
  mp_le : mp ≤ 11
  d_pos : 1 ≤ d
  civil : civilFromDays day =
    if mp < 10 then (era * 400 + yoe, mp + 3, d) else (era * 400 + yoe + 1, mp - 9, d)

/-- Every day has one. -/
theorem exists_marchDate (day : Int) : Nonempty (MarchDate day) := by
  obtain ⟨doe, hdoe⟩ : ∃ doe, doe = ((day + 719468) % 146097).toNat := ⟨_, rfl⟩
  have hlt : doe < 146097 := by omega
  rcases yearOfEra_spec doe hlt with ⟨hyoe, hle, hdoy, hend⟩
  obtain ⟨doy, hdoy'⟩ : ∃ doy, doy = doe - daysBeforeYear (yearOfEra doe) := ⟨_, rfl⟩
  obtain ⟨mp, hmp⟩ : ∃ mp, mp = (5 * doy + 2) / 153 := ⟨_, rfl⟩
  -- the fields are the code's own quotients, and the bounds follow from those of the era
  refine ⟨{
    era := (day + 719468) / 146097
    yoe := yearOfEra doe
    doy := doy
    mp := mp
    d := doy - (153 * mp + 2) / 5 + 1
    day_eq := by omega
    yoe_lt := hyoe
    doe_lt := by omega
    year_end := by
      intro hlast
      have hday := hend hlast
      omega
    doy_eq := by omega
    doy_le := by omega
    month_end := by omega
    mp_le := by omega
    d_pos := by omega
    civil := ?_ }⟩
  have hcivil : civilFromDays day =
      (if (if mp < 10 then mp + 3 else mp - 9) ≤ 2 then
          (yearOfEra doe : Int) + (day + 719468) / 146097 * 400 + 1
        else (yearOfEra doe : Int) + (day + 719468) / 146097 * 400,
        if mp < 10 then mp + 3 else mp - 9, doy - (153 * mp + 2) / 5 + 1) := by
    unfold civilFromDays
    rw [hmp, hdoy', hdoe]
    rfl
  rw [hcivil]
  by_cases hmp10 : mp < 10
  · rw [if_pos hmp10, if_pos hmp10, if_neg (by omega), Int.add_comm]
  · rw [if_neg hmp10, if_neg hmp10, if_pos (by omega), Int.add_comm (yearOfEra doe : Int)]

/-- The months of the civil calendar in the order of the March calendar. -/
theorem MarchDate.month {day : Int} (h : MarchDate day) {y : Int} {m d : ℕ}
    (hcivil : civilFromDays day = (y, m, d)) :
    d = h.d ∧ 1 ≤ m ∧ m ≤ 12 ∧ 12 * y + m = 12 * (h.era * 400 + h.yoe) + h.mp + 3 ∧
      (m ≤ 2 ↔ 10 ≤ h.mp) := by
  have hmp := h.mp_le
  have heq := hcivil.symm.trans h.civil
  split_ifs at heq with hmp10
  · simp only [Prod.mk.injEq] at heq
    omega
  · simp only [Prod.mk.injEq] at heq
    omega

/-- A date tells its day. -/
theorem daysFromCivil_civilFromDays {day y : Int} {m d : ℕ}
    (hcivil : civilFromDays day = (y, m, d)) : daysFromCivil y m d = day := by
  rcases exists_marchDate day with ⟨h⟩
  rcases h.month hcivil with ⟨hd, hm1, hm12, hmonth, hm2⟩
  have hyoe := h.yoe_lt
  have hday := h.day_eq
  have hdoy := h.doy_eq
  have hmpLe := h.mp_le
  unfold daysFromCivil
  simp only
  split_ifs with hm
  · have hmp : m + 9 = h.mp := by omega
    have hy : y - 1 = h.era * 400 + h.yoe := by omega
    have hera : (y - 1) / 400 = h.era := by omega
    have hyear : ((y - 1) % 400).toNat = h.yoe := by omega
    rw [hmp, hera, hyear]
    omega
  · have hmp : m - 3 = h.mp := by omega
    have hera : y / 400 = h.era := by omega
    have hyear : (y % 400).toNat = h.yoe := by omega
    rw [hmp, hera, hyear]
    omega

/-- A later day has a later date. -/
theorem civilFromDays_lt {day day' y y' : Int} {m m' d d' : ℕ} (hlt : day < day')
    (hcivil : civilFromDays day = (y, m, d)) (hcivil' : civilFromDays day' = (y', m', d')) :
    y < y' ∨ y = y' ∧ (m < m' ∨ m = m' ∧ d < d') := by
  rcases exists_marchDate day with ⟨h⟩
  rcases exists_marchDate day' with ⟨h'⟩
  rcases h.month hcivil with ⟨hd, hm1, hm12, hmonth, -⟩
  rcases h'.month hcivil' with ⟨hd', hm1', hm12', hmonth', -⟩
  suffices hdate : 12 * y + m < 12 * y' + m' ∨ 12 * y + m = 12 * y' + m' ∧ d < d' by omega
  have hday := h.day_eq
  have hday' := h'.day_eq
  have hdoe := h.doe_lt
  have hdoe' := h'.doe_lt
  have hyoe := h.yoe_lt
  have hmp := h.mp_le
  rcases lt_trichotomy h.era h'.era with hera | hera | hera
  · left
    omega
  · -- the same era: the years are in order
    rcases lt_trichotomy h.yoe h'.yoe with hyear | hyear | hyear
    · left
      omega
    · have hdoy : h.doy < h'.doy := by
        rw [hyear, hera] at hday
        omega
      have hdoyEq := h.doy_eq
      have hdoyEq' := h'.doy_eq
      have hmonthEnd := h.month_end
      have hmonthEnd' := h'.month_end
      have hd1 := h'.d_pos
      rcases lt_trichotomy h.mp h'.mp with hmp | hmp | hmp
      · left
        omega
      · right
        rw [hmp] at hdoyEq
        omega
      · omega
    · have hend := h'.year_end (by omega)
      have hmono : daysBeforeYear (h'.yoe + 1) ≤ daysBeforeYear h.yoe :=
        daysBeforeYear_mono hyear
      rw [hera] at hday
      omega
  · omega

/-- A later day is in no earlier year. -/
theorem civilFromDays_year_le {day day' y y' : Int} {m m' d d' : ℕ} (hle : day ≤ day')
    (hcivil : civilFromDays day = (y, m, d)) (hcivil' : civilFromDays day' = (y', m', d')) :
    y ≤ y' := by
  rcases eq_or_lt_of_le hle with rfl | hlt
  · rw [hcivil] at hcivil'
    exact (Prod.mk.inj hcivil').1.le
  · rcases civilFromDays_lt hlt hcivil hcivil' with hy | ⟨hy, -⟩
    · exact hy.le
    · exact hy.le

/-- A year of the March calendar with a 366th day ends in a leap year's February. -/
theorem MarchDate.leap {day : Int} (h : MarchDate day) (hdoy : h.doy = 365) :
    isLeapYear (h.era * 400 + h.yoe + 1) = true := by
  have hyoe := h.yoe_lt
  have hyear : (h.yoe + 1) % 4 = 0 ∧ ((h.yoe + 1) % 100 ≠ 0 ∨ h.yoe = 399) := by
    by_cases hlast : h.yoe = 399
    · omega
    · have hend := h.year_end (by omega)
      unfold daysBeforeYear at hend
      omega
  simp only [isLeapYear, Bool.and_eq_true, Bool.or_eq_true, beq_iff_eq, bne_iff_ne, ne_eq]
  omega

/-- The date of a day is a date. -/
theorem validDate_civilFromDays {day y : Int} {m d : ℕ} (hcivil : civilFromDays day = (y, m, d)) :
    validDate y m d = true := by
  rcases exists_marchDate day with ⟨h⟩
  rcases h.month hcivil with ⟨hd, hm1, hm12, hmonth, hm2⟩
  have hdoy := h.doy_eq
  have hmonthEnd := h.month_end
  have hmpLe := h.mp_le
  have hpos := h.d_pos
  have hlen : d ≤ daysInMonth y m := by
    by_cases hfeb : m = 2
    · have hmp : h.mp = 11 := by omega
      have hdoyLe := h.doy_le
      rw [hmp] at hdoy
      rw [hfeb]
      show d ≤ if isLeapYear y then 29 else 28
      split_ifs with hleap
      · omega
      · by_contra hlong
        have hy : y = h.era * 400 + h.yoe + 1 := by omega
        rw [hy] at hleap
        exact hleap (h.leap (by omega))
    · have hmp : h.mp = if m ≤ 2 then m + 9 else m - 3 := by
        split_ifs <;> omega
      rw [hmp] at hdoy hmonthEnd
      interval_cases m <;> simp [daysInMonth] at hdoy hmonthEnd hfeb ⊢ <;> omega
  simp only [validDate, Bool.and_eq_true, decide_eq_true_eq]
  omega

end LightTrack
