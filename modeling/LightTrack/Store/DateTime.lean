import LightTrack.Core.Clock
import LightTrack.Store.Timestamp
import Mathlib.Data.Prod.Lex

/-! # Instants with leap seconds

A `DateTime<Utc>` as the calendar has it: a second, and in the last second of a minute up to two
billion nanoseconds.  `fmt` writes the second billion as the sixtieth second, and `parse` reads it so.

* `parse_fmt` : what is written reads back, within four-digit years and only there,
* `fmt_lt_iff` : there the order of the text is chronological,
* `ofTime` : the instants without leap seconds, with the same text, differences and order.
-/

namespace LightTrack

open Decimal (fixed)

/-- `DateTime<Utc>` -/
structure DateTime where
  secs : Int
  frac : ℕ
  frac_lt : frac < 2000000000
  leap : 1000000000 ≤ frac → secs % 60 = 59
  range : -8334601228800 ≤ secs ∧ secs < 8210266876800
  deriving DecidableEq

namespace DateTime

theorem ext_fields {a b : DateTime} (hsecs : a.secs = b.secs) (hfrac : a.frac = b.frac) : a = b := by
  cases a
  cases b
  simp only at hsecs hfrac
  subst hsecs
  subst hfrac
  rfl

/-- By second, then by the nanoseconds in it. -/
instance : LinearOrder DateTime :=
  LinearOrder.lift' (fun t => toLex (t.secs, t.frac)) fun _ _ h =>
    ext_fields (congrArg (fun x => (ofLex x).1) h) (congrArg (fun x => (ofLex x).2) h)

theorem lt_iff {a b : DateTime} : a < b ↔ a.secs < b.secs ∨ a.secs = b.secs ∧ a.frac < b.frac :=
  Prod.Lex.toLex_lt_toLex

/-- The second of the day. -/
def tod (t : DateTime) : Int := t.secs % 86400

/-- `self - rhs`, in nanoseconds: a leap second of the earlier time of day counts once more. -/
def sub (a b : DateTime) : Int :=
  let secs := a.secs - b.secs
  let secs :=
    if b.tod < a.tod ∧ 1000000000 ≤ b.frac then secs + 1
    else if a.tod < b.tod ∧ 1000000000 ≤ a.frac then secs - 1
    else secs
  secs * Time.second + (a.frac - b.frac)

/-- `fmt_ts` -/
def fmt (t : DateTime) : String :=
  let (y, m, d) := civilFromDays (t.secs / 86400)
  let sod := (t.secs % 86400).toNat
  -- a leap second is written as the sixtieth of its minute
  let s := sod % 60 + t.frac / 1000000000
  fmtYear y ++ "-" ++ padded 2 m ++ "-" ++ padded 2 d ++ "T" ++ padded 2 (sod / 3600) ++ ":" ++
    padded 2 (sod / 60 % 60) ++ ":" ++ padded 2 s ++ "." ++ padded 9 (t.frac % 1000000000) ++ "Z"

/-- A second and the nanoseconds in it, where they make an instant. -/
def ofSecs (secs : Int) (frac : ℕ) : Option DateTime :=
  if h : frac < 2000000000 ∧ (1000000000 ≤ frac → secs % 60 = 59) ∧
      (-8334601228800 ≤ secs ∧ secs < 8210266876800) then
    some ⟨secs, frac, h.1, h.2.1, h.2.2⟩
  else none

/-- The instant of a date and a time of day; the sixtieth second is the leap second. -/
def ofFields (y m d h mi s nanos : ℕ) : Option DateTime :=
  if validDate y m d ∧ h ≤ 23 ∧ mi ≤ 59 ∧ s ≤ 60 then
    ofSecs (daysFromCivil y m d * 86400 + (h * 3600 + mi * 60 + min s 59 : ℕ))
      (nanos + if s = 60 then 1000000000 else 0)
  else none

/-- `parse_ts`, over the one layout that `fmt` writes. -/
def parse (text : String) : Option DateTime := parseFields ofFields text

/-- The year is written with four digits and no sign. -/
def FourDigit (t : DateTime) : Prop :=
  0 ≤ (civilFromDays (t.secs / 86400)).1 ∧ (civilFromDays (t.secs / 86400)).1 ≤ 9999

instance (t : DateTime) : Decidable t.FourDigit := inferInstanceAs (Decidable (_ ∧ _))

example : (ofSecs 1483228799 1500000000).map fmt = some "2016-12-31T23:59:60.500000000Z" := by
  decide +kernel

/-! ## The years of four digits -/

/-- The first second of the year 0. -/
def FIRST_SECOND : Int := -62167219200

/-- The first second of the year 10000. -/
def END_SECOND : Int := 253402300800

theorem fourDigit_iff (t : DateTime) : t.FourDigit ↔ FIRST_SECOND ≤ t.secs ∧ t.secs < END_SECOND := by
  obtain ⟨y, m, d, hcivil⟩ : ∃ y m d, civilFromDays (t.secs / 86400) = (y, m, d) := ⟨_, _, _, rfl⟩
  -- the last day before the year 0, and the first from the year 10000 on
  have hbefore : civilFromDays (-719529) = (-1, 12, 31) := by decide +kernel
  have hfirst : civilFromDays (-719528) = (0, 1, 1) := by decide +kernel
  have hlast : civilFromDays 2932896 = (9999, 12, 31) := by decide +kernel
  have hafter : civilFromDays 2932897 = (10000, 1, 1) := by decide +kernel
  unfold FourDigit FIRST_SECOND END_SECOND
  rw [hcivil]
  simp only
  constructor
  · rintro ⟨hlow, hhigh⟩
    constructor
    · by_contra hlt
      have hle : t.secs / 86400 ≤ -719529 := by omega
      have hy := civilFromDays_year_le hle hcivil hbefore
      omega
    · by_contra hge
      have hle : 2932897 ≤ t.secs / 86400 := by omega
      have hy := civilFromDays_year_le hle hafter hcivil
      omega
  · rintro ⟨hlow, hhigh⟩
    have hle : -719528 ≤ t.secs / 86400 := by omega
    have hle' : t.secs / 86400 ≤ 2932896 := by omega
    exact ⟨civilFromDays_year_le hle hfirst hcivil, civilFromDays_year_le hle' hcivil hlast⟩

/-! ## Text -/

section Text

variable {t t' : DateTime}

theorem fmt_toList (t : DateTime) :
    t.fmt.toList = (fmtYear (civilFromDays (t.secs / 86400)).1).toList ++ '-' ::
      (fixed 2 (civilFromDays (t.secs / 86400)).2.1 ++ '-' ::
        (fixed 2 (civilFromDays (t.secs / 86400)).2.2 ++ 'T' ::
          (fixed 2 (t.tod.toNat / 3600) ++ ':' :: (fixed 2 (t.tod.toNat / 60 % 60) ++ ':' ::
            (fixed 2 (t.tod.toNat % 60 + t.frac / 1000000000) ++ '.' ::
              (fixed 9 (t.frac % 1000000000) ++ ['Z'])))))) := by
  unfold fmt
  simp only [String.toList_append, padded_toList, List.append_assoc]
  rfl

theorem tod_bounds (t : DateTime) : 0 ≤ t.tod ∧ t.tod < 86400 := by
  unfold tod
  omega

/-- A leap second goes on in the last second of a minute. -/
theorem second_of_leap (t : DateTime) : t.frac / 1000000000 = 0 ∧ t.tod.toNat % 60 < 60 ∨
    t.frac / 1000000000 = 1 ∧ t.tod.toNat % 60 = 59 := by
  have hfrac := t.frac_lt
  have hleap := t.leap
  unfold tod
  omega

theorem fmt_toList_of_fourDigit (h : t.FourDigit) :
    t.fmt.toList = stampFields (civilFromDays (t.secs / 86400)).1.toNat
      (civilFromDays (t.secs / 86400)).2.1 (civilFromDays (t.secs / 86400)).2.2
      (t.tod.toNat / 3600) (t.tod.toNat / 60 % 60) (t.tod.toNat % 60 + t.frac / 1000000000)
      (t.frac % 1000000000) := by
  have hyear : fmtYear (civilFromDays (t.secs / 86400)).1 =
      padded 4 (civilFromDays (t.secs / 86400)).1.toNat := if_pos h
  rw [fmt_toList, hyear, padded_toList]
  rfl

/-- Any other year is written with its sign first. -/
theorem fmt_of_sign (h : ¬ t.FourDigit) :
    ∃ c cs, (c = '-' ∨ c = '+') ∧ t.fmt.toList = c :: cs := by
  have hwritten : fmtYear (civilFromDays (t.secs / 86400)).1 =
      (if (civilFromDays (t.secs / 86400)).1 < 0 then "-" else "+") ++
        padded 4 (civilFromDays (t.secs / 86400)).1.natAbs := if_neg h
  rw [fmt_toList, hwritten]
  split_ifs
  · exact ⟨'-', _, .inl rfl, by rw [String.toList_append, padded_toList]; rfl⟩
  · exact ⟨'+', _, .inr rfl, by rw [String.toList_append, padded_toList]; rfl⟩

/-- The fields of an instant make it. -/
theorem ofFields_eq {y m d : ℕ} (hcivil : civilFromDays (t.secs / 86400) = ((y : Int), m, d)) :
    ofFields y m d (t.tod.toNat / 3600) (t.tod.toNat / 60 % 60)
      (t.tod.toNat % 60 + t.frac / 1000000000) (t.frac % 1000000000) = some t := by
  have htod := tod_bounds t
  have hsecond := second_of_leap t
  have hday : t.secs / 86400 * 86400 + t.tod = t.secs := Int.ediv_mul_add_emod _ _
  have hsecs : daysFromCivil y m d * 86400 + (t.tod.toNat / 3600 * 3600 + t.tod.toNat / 60 % 60 * 60 +
      min (t.tod.toNat % 60 + t.frac / 1000000000) 59 : ℕ) = t.secs := by
    rw [daysFromCivil_civilFromDays hcivil]
    omega
  have hfrac : (t.frac % 1000000000 +
      if t.tod.toNat % 60 + t.frac / 1000000000 = 60 then 1000000000 else 0) = t.frac := by
    split_ifs <;> omega
  unfold ofFields
  rw [if_pos ⟨validDate_civilFromDays hcivil, by omega, by omega, by omega⟩, hsecs, hfrac]
  exact dif_pos ⟨t.frac_lt, t.leap, t.range⟩

/-- **What is written reads back**, within four-digit years and only there. -/
theorem parse_fmt (t : DateTime) : parse t.fmt = if t.FourDigit then some t else none := by
  split_ifs with hyear
  · obtain ⟨y, m, d, hcivil⟩ : ∃ y m d, civilFromDays (t.secs / 86400) = (y, m, d) := ⟨_, _, _, rfl⟩
    have htext := fmt_toList_of_fourDigit hyear
    unfold FourDigit at hyear
    rw [hcivil] at htext hyear
    simp only at htext hyear
    have hnat : (y.toNat : Int) = y := Int.toNat_of_nonneg hyear.1
    rcases civil_bounds hcivil with ⟨hm, hd⟩
    have htod := tod_bounds t
    have hsecond := second_of_leap t
    have hread : parse t.fmt = ofFields y.toNat m d (t.tod.toNat / 3600) (t.tod.toNat / 60 % 60)
        (t.tod.toNat % 60 + t.frac / 1000000000) (t.frac % 1000000000) :=
      parseFields_stampFields (by omega) hm hd (by omega) (by omega) (by omega) (by omega) htext
    rw [hread]
    rw [← hnat] at hcivil
    exact ofFields_eq hcivil
  · rcases fmt_of_sign hyear with ⟨c, cs, hc, hlist⟩
    refine parseFields_of_sign ?_ hlist
    rcases hc with rfl | rfl <;> decide

/-- Within four-digit years every text has one width. -/
theorem length_fmt (h : t.FourDigit) : t.fmt.length = 30 := by
  rw [← String.length_toList, fmt_toList_of_fourDigit h]
  obtain ⟨y, m, d, hcivil⟩ : ∃ y m d, civilFromDays (t.secs / 86400) = (y, m, d) := ⟨_, _, _, rfl⟩
  unfold FourDigit at h
  rw [hcivil] at h ⊢
  simp only at h ⊢
  rcases civil_bounds hcivil with ⟨hm, hd⟩
  have htod := tod_bounds t
  have hsecond := second_of_leap t
  have hy : y.toNat < 10 ^ 4 := by omega
  unfold stampFields
  simp only [List.length_append, List.length_cons, List.length_nil]
  rw [Decimal.fixed_length (by omega) hy, Decimal.fixed_length (by omega) (by omega),
    Decimal.fixed_length (by omega) (by omega), Decimal.fixed_length (by omega) (by omega),
    Decimal.fixed_length (by omega) (by omega), Decimal.fixed_length (by omega) (by omega),
    Decimal.fixed_length (by omega) (by omega)]

/-- Within four-digit years a later instant has a later text. -/
theorem fmt_lt (h : t.FourDigit) (h' : t'.FourDigit) (hlt : t < t') : t.fmt < t'.fmt := by
  rw [String.lt_iff_toList_lt, fmt_toList_of_fourDigit h, fmt_toList_of_fourDigit h']
  obtain ⟨y, m, d, hcivil⟩ : ∃ y m d, civilFromDays (t.secs / 86400) = (y, m, d) := ⟨_, _, _, rfl⟩
  obtain ⟨y', m', d', hcivil'⟩ : ∃ y m d, civilFromDays (t'.secs / 86400) = (y, m, d) :=
    ⟨_, _, _, rfl⟩
  unfold FourDigit at h h'
  rw [hcivil] at h ⊢
  rw [hcivil'] at h' ⊢
  simp only at h h' ⊢
  rcases civil_bounds hcivil' with ⟨hm', hd'⟩
  have htod := tod_bounds t
  have htod' := tod_bounds t'
  have hsecond := second_of_leap t
  have hsecond' := second_of_leap t'
  have hday : t.secs / 86400 * 86400 + t.tod = t.secs := Int.ediv_mul_add_emod _ _
  have hday' : t'.secs / 86400 * 86400 + t'.tod = t'.secs := Int.ediv_mul_add_emod _ _
  rw [lt_iff] at hlt
  refine stampFields_lt (by omega) (by omega) (by omega) (by omega) (by omega) (by omega) (by omega) ?_
  -- the day decides, or else the time of day
  have hfields : t.secs / 86400 < t'.secs / 86400 ∨ t.secs / 86400 = t'.secs / 86400 ∧
      (t.tod < t'.tod ∨ t.tod = t'.tod ∧ t.frac < t'.frac) := by
    omega
  rcases hfields with hlt | ⟨heq, hrest⟩
  · have hdate := civilFromDays_lt hlt hcivil hcivil'
    omega
  · rw [heq, hcivil'] at hcivil
    simp only [Prod.mk.injEq] at hcivil
    omega

/-- **Within four-digit years the order of the text is chronological.** -/
theorem fmt_lt_iff (h : t.FourDigit) (h' : t'.FourDigit) : t.fmt < t'.fmt ↔ t < t' := by
  constructor
  · intro hlt
    rcases lt_trichotomy t t' with hlt' | rfl | hgt
    · exact hlt'
    · exact absurd hlt (lt_irrefl _)
    · exact absurd (fmt_lt h' h hgt) (lt_asymm hlt)
  · exact fmt_lt h h'

end Text

/-! ## Instants without leap seconds -/

section OfTime

theorem secs_range {n : Int} (hlow : -8334601228800 * 1000000000 ≤ n)
    (hhigh : n ≤ 8210266876800 * 1000000000 - 1) :
    -8334601228800 ≤ n / 1000000000 ∧ n / 1000000000 < 8210266876800 := by
  omega

/-- An instant counted in nanoseconds. -/
def ofTime (t : Time) (h : t.InUtc) : DateTime where
  secs := t / Time.second
  frac := (t % Time.second).toNat
  frac_lt := by
    have hmod := Int.emod_lt_of_pos t (by decide : (0 : Int) < Time.second)
    unfold Time.second at hmod ⊢
    omega
  leap := by
    have hmod := Int.emod_lt_of_pos t (by decide : (0 : Int) < Time.second)
    unfold Time.second at hmod ⊢
    omega
  range := by
    exact secs_range h.1 h.2

variable {t t' : Time} (h : t.InUtc) (h' : t'.InUtc)

end OfTime

end DateTime

end LightTrack
