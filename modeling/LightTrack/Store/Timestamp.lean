import LightTrack.Lib.Decimal
import LightTrack.Store.Calendar
import Mathlib

/-! # Stored timestamps

`parse_ts` reads the text `fmt_ts` wrote: exactly four digits of a year, so a year beyond them is
written with its sign and cannot be read back.  Within four digits the text has one width, and its
order is the order of the instants.

* `parseTs_fmtTs` : what is written reads back, within four-digit years and only there,
* `fmtTs_lt_iff` : there the order of the text is chronological.
-/

namespace LightTrack

open Decimal (fixed)

/-- Read a field of digits and the separator behind it. -/
def readField (width : ℕ) (sep : Char) (cs : List Char) : Option (ℕ × List Char) :=
  match Decimal.read width cs with
  | some (n, c :: cs) => if c = sep then some (n, cs) else none
  | _ => none

/-- The instant of a valid date and time of day. -/
def instantOf (y m d h mi s nanos : ℕ) : Option Time :=
  if validDate y m d ∧ h ≤ 23 ∧ mi ≤ 59 ∧ s ≤ 59 then
    some ((daysFromCivil y m d * 86400 + (h * 3600 + mi * 60 + s : ℕ)) * Time.second + nanos)
  else none

/-- `parse_ts`, over the one layout that `fmt_ts` writes. Instants have no leap seconds. -/
def parseTs (text : String) : Option Time := do
  let (y, cs) ← readField 4 '-' text.toList
  let (m, cs) ← readField 2 '-' cs
  let (d, cs) ← readField 2 'T' cs
  let (h, cs) ← readField 2 ':' cs
  let (mi, cs) ← readField 2 ':' cs
  let (s, cs) ← readField 2 '.' cs
  let (nanos, cs) ← readField 9 'Z' cs
  if cs.isEmpty then instantOf y m d h mi s nanos else none

example : parseTs "2026-05-31T00:07:14.110948400Z" = some 1780186034110948400 := by decide +kernel

/-! ## Fields -/

/-- The day an instant falls on, counted from 1970-01-01. -/
def dayOf (t : Time) : Int := t / Time.second / 86400

/-- The second of the day. -/
def secondOfDay (t : Time) : ℕ := (t / Time.second % 86400).toNat

/-- The nanoseconds of the second. -/
def nanosOf (t : Time) : ℕ := (t % Time.second).toNat

/-- The year is written with four digits and no sign. -/
def FourDigitYear (t : Time) : Prop :=
  0 ≤ (civilFromDays (dayOf t)).1 ∧ (civilFromDays (dayOf t)).1 ≤ 9999

instance (t : Time) : Decidable (FourDigitYear t) := inferInstanceAs (Decidable (_ ∧ _))

/-- The text of a timestamp, block by block. -/
def stampChars (y m d sod nanos : ℕ) : List Char :=
  fixed 4 y ++ '-' :: (fixed 2 m ++ '-' :: (fixed 2 d ++ 'T' :: (fixed 2 (sod / 3600) ++ ':' ::
    (fixed 2 (sod / 60 % 60) ++ ':' :: (fixed 2 (sod % 60) ++ '.' :: (fixed 9 nanos ++ ['Z']))))))

/-- The text of a timestamp with the fields of its time of day. -/
def stampFields (y m d h mi s nanos : ℕ) : List Char :=
  fixed 4 y ++ '-' :: (fixed 2 m ++ '-' :: (fixed 2 d ++ 'T' :: (fixed 2 h ++ ':' ::
    (fixed 2 mi ++ ':' :: (fixed 2 s ++ '.' :: (fixed 9 nanos ++ ['Z']))))))

@[simp] theorem padded_toList (width n : ℕ) : (padded width n).toList = fixed width n := by
  unfold padded fixed
  rw [String.toList_ofList, Nat.toString_eq_ofList_toDigits, String.toList_ofList]

theorem fmtTs_toList (t : Time) :
    (fmtTs t).toList = (fmtYear (civilFromDays (dayOf t)).1).toList ++ '-' ::
      (fixed 2 (civilFromDays (dayOf t)).2.1 ++ '-' :: (fixed 2 (civilFromDays (dayOf t)).2.2 ++
        'T' :: (fixed 2 (secondOfDay t / 3600) ++ ':' :: (fixed 2 (secondOfDay t / 60 % 60) ++
          ':' :: (fixed 2 (secondOfDay t % 60) ++ '.' :: (fixed 9 (nanosOf t) ++ ['Z'])))))) := by
  unfold fmtTs
  simp only [String.toList_append, padded_toList, List.append_assoc]
  rfl

/-- A timestamp is digits and the separators of its layout. -/
theorem not_mem_fmtTs {c : Char} (hdigit : c.isDigit = false)
    (hlayout : c ∉ ['+', '-', 'T', ':', '.', 'Z']) (t : Time) : c ∉ (fmtTs t).toList := by
  have hfixed : ∀ width n, c ∉ fixed width n := by
    intro width n hmem
    rw [Decimal.isDigits_fixed width n c hmem] at hdigit
    cases hdigit
  have hyear : ∀ y, c ∉ (fmtYear y).toList := by
    intro y
    unfold fmtYear
    split_ifs <;> simp_all
  rw [fmtTs_toList]
  simp_all

theorem fmtTs_toList_of_fourDigit {t : Time} (h : FourDigitYear t) :
    (fmtTs t).toList = stampChars (civilFromDays (dayOf t)).1.toNat (civilFromDays (dayOf t)).2.1
      (civilFromDays (dayOf t)).2.2 (secondOfDay t) (nanosOf t) := by
  have hyear : fmtYear (civilFromDays (dayOf t)).1 = padded 4 (civilFromDays (dayOf t)).1.toNat :=
    if_pos h
  rw [fmtTs_toList, hyear, padded_toList]
  rfl

theorem secondOfDay_lt (t : Time) : secondOfDay t < 86400 := by
  unfold secondOfDay
  omega

theorem nanosOf_lt (t : Time) : nanosOf t < 1000000000 := by
  have hpos : (0 : Int) < Time.second := by decide
  exact (Int.toNat_lt (Int.emod_nonneg t (by decide))).2 (Int.emod_lt_of_pos t hpos)

/-- The fields of an instant add up to it. -/
theorem instant_eq (t : Time) :
    (dayOf t * 86400 + (secondOfDay t : ℕ)) * Time.second + (nanosOf t : ℕ) = t := by
  have hsecond : ((t / Time.second % 86400).toNat : Int) = t / Time.second % 86400 :=
    Int.toNat_of_nonneg (Int.emod_nonneg _ (by decide))
  have hnano : ((t % Time.second).toNat : Int) = t % Time.second :=
    Int.toNat_of_nonneg (Int.emod_nonneg _ (by decide))
  unfold dayOf secondOfDay nanosOf
  rw [hsecond, hnano]
  have hday : t / Time.second / 86400 * 86400 + t / Time.second % 86400 = t / Time.second :=
    Int.ediv_mul_add_emod _ _
  rw [hday]
  exact Int.ediv_mul_add_emod _ _

/-! ## Reading back -/

/-- The civil fields of a day are within their widths. -/
theorem civil_bounds {day y : Int} {m d : ℕ} (hcivil : civilFromDays day = (y, m, d)) :
    m < 100 ∧ d < 100 := by
  rcases exists_marchDate day with ⟨h⟩
  rcases h.month hcivil with ⟨hd, -, hm12, -, -⟩
  have hdoy := h.doy_eq
  have hend := h.month_end
  omega

theorem readField_fixed {width n : ℕ} (hwidth : 0 < width) (hn : n < 10 ^ width) {sep : Char}
    {cs : List Char} : readField width sep (fixed width n ++ sep :: cs) = some (n, cs) := by
  unfold readField
  rw [Decimal.read_fixed hwidth hn]
  exact if_pos rfl

/-- The layout read, and its fields handed on. -/
def parseFields {α : Type} (f : ℕ → ℕ → ℕ → ℕ → ℕ → ℕ → ℕ → Option α) (text : String) : Option α := do
  let (y, cs) ← readField 4 '-' text.toList
  let (m, cs) ← readField 2 '-' cs
  let (d, cs) ← readField 2 'T' cs
  let (h, cs) ← readField 2 ':' cs
  let (mi, cs) ← readField 2 ':' cs
  let (s, cs) ← readField 2 '.' cs
  let (nanos, cs) ← readField 9 'Z' cs
  if cs.isEmpty then f y m d h mi s nanos else none

section Fields

variable {α : Type} {f : ℕ → ℕ → ℕ → ℕ → ℕ → ℕ → ℕ → Option α} {text : String}

/-- What is written in the layout reads back field by field. -/
theorem parseFields_stampFields {y m d h mi s nanos : ℕ} (hy : y < 10000) (hm : m < 100)
    (hd : d < 100) (hh : h < 100) (hmi : mi < 100) (hs : s < 100) (hnanos : nanos < 1000000000)
    (htext : text.toList = stampFields y m d h mi s nanos) :
    parseFields f text = f y m d h mi s nanos := by
  unfold parseFields
  rw [htext]
  unfold stampFields
  simp only [Option.bind_eq_bind]
  rw [readField_fixed (by omega) hy, Option.bind_some]
  simp only
  rw [readField_fixed (by omega) hm, Option.bind_some]
  simp only
  rw [readField_fixed (by omega) hd, Option.bind_some]
  simp only
  rw [readField_fixed (by omega) hh, Option.bind_some]
  simp only
  rw [readField_fixed (by omega) hmi, Option.bind_some]
  simp only
  rw [readField_fixed (by omega) hs, Option.bind_some]
  simp only
  rw [readField_fixed (by omega) hnanos, Option.bind_some]
  rfl

/-- A year with a sign is not read. -/
theorem parseFields_of_sign {c : Char} {cs : List Char} (hc : c.isDigit = false)
    (htext : text.toList = c :: cs) : parseFields f text = none := by
  have hread : Decimal.read 4 (c :: cs) = none := by
    unfold Decimal.read
    refine if_neg ?_
    rintro ⟨-, hall⟩
    rw [List.take_succ_cons, List.all_cons, hc] at hall
    cases hall
  have hfield : readField 4 '-' (c :: cs) = none := by
    unfold readField
    rw [hread]
  unfold parseFields
  rw [htext, hfield]
  rfl

end Fields

theorem parseTs_stampChars {y m d sod nanos : ℕ} (hy : y < 10000) (hm : m < 100) (hd : d < 100)
    (hsod : sod < 86400) (hnanos : nanos < 1000000000) (hvalid : validDate y m d = true)
    {text : String} (htext : text.toList = stampChars y m d sod nanos) :
    parseTs text = some ((daysFromCivil y m d * 86400 + (sod : ℕ)) * Time.second + nanos) := by
  have htime : sod / 3600 * 3600 + sod / 60 % 60 * 60 + sod % 60 = sod := by omega
  have hinstant : instantOf y m d (sod / 3600) (sod / 60 % 60) (sod % 60) nanos =
      some ((daysFromCivil y m d * 86400 + (sod : ℕ)) * Time.second + nanos) := by
    unfold instantOf
    rw [if_pos ⟨hvalid, by omega, by omega, by omega⟩, htime]
  have hread : parseTs text = instantOf y m d (sod / 3600) (sod / 60 % 60) (sod % 60) nanos :=
    parseFields_stampFields hy hm hd (by omega) (by omega) (by omega) hnanos htext
  rw [hread, hinstant]

/-- Any other year is written with its sign first. -/
theorem fmtTs_of_sign {t : Time} (h : ¬ FourDigitYear t) :
    ∃ c cs, (c = '-' ∨ c = '+') ∧ (fmtTs t).toList = c :: cs := by
  have hwritten : fmtYear (civilFromDays (dayOf t)).1 =
      (if (civilFromDays (dayOf t)).1 < 0 then "-" else "+") ++
        padded 4 (civilFromDays (dayOf t)).1.natAbs := if_neg h
  rw [fmtTs_toList, hwritten]
  split_ifs
  · exact ⟨'-', _, .inl rfl, by rw [String.toList_append, padded_toList]; rfl⟩
  · exact ⟨'+', _, .inr rfl, by rw [String.toList_append, padded_toList]; rfl⟩

/-- What is written reads back, within four-digit years and only there. -/
theorem parseTs_fmtTs (t : Time) :
    parseTs (fmtTs t) = if FourDigitYear t then some t else none := by
  split_ifs with hyear
  · obtain ⟨y, m, d, hcivil⟩ : ∃ y m d, civilFromDays (dayOf t) = (y, m, d) := ⟨_, _, _, rfl⟩
    have htext := fmtTs_toList_of_fourDigit hyear
    unfold FourDigitYear at hyear
    rw [hcivil] at htext hyear
    have hnat : (y.toNat : Int) = y := Int.toNat_of_nonneg hyear.1
    have hy : y.toNat < 10000 := by
      have hle := hyear.2
      simp only at hle
      omega
    have hvalid : validDate (y.toNat : Int) m d = true := by
      rw [hnat]
      exact validDate_civilFromDays hcivil
    rcases civil_bounds hcivil with ⟨hm, hd⟩
    rw [parseTs_stampChars hy hm hd (secondOfDay_lt t) (nanosOf_lt t) hvalid htext, hnat,
      daysFromCivil_civilFromDays hcivil]
    exact congrArg some (instant_eq t)
  · rcases fmtTs_of_sign hyear with ⟨c, cs, hc, hlist⟩
    refine parseFields_of_sign ?_ hlist
    rcases hc with rfl | rfl <;> decide

/-! ## Order -/

/-- Instants are ordered as their days, then their seconds, then their nanoseconds. -/
theorem fields_lt {day day' : Int} {sod sod' nanos nanos' : ℕ} (hsod : sod < 86400)
    (hsod' : sod' < 86400) (hnanos : nanos < 1000000000) (hnanos' : nanos' < 1000000000)
    (h : (day * 86400 + sod) * 1000000000 + nanos < (day' * 86400 + sod') * 1000000000 + nanos') :
    day < day' ∨ day = day' ∧ (sod < sod' ∨ sod = sod' ∧ nanos < nanos') := by
  omega

/-- Blocks before a separator decide, and behind an equal block the rest decides. -/
theorem block_lt {width n n' : ℕ} (hwidth : 0 < width) (hn' : n' < 10 ^ width) (c : Char)
    {cs cs' : List Char} (h : n < n' ∨ n = n' ∧ cs < cs') :
    fixed width n ++ c :: cs < fixed width n' ++ c :: cs' := by
  rcases h with hlt | ⟨rfl, hlt⟩
  · refine Decimal.append_lt_of_lt ?_ (Decimal.fixed_lt hwidth hn' hlt)
    rw [Decimal.fixed_length hwidth (hlt.trans hn'), Decimal.fixed_length hwidth hn']
  · exact List.append_left_lt (List.cons_lt_cons_iff.2 (.inr ⟨rfl, hlt⟩))

/-- The first block that differs decides. -/
theorem stampFields_lt {y m d h mi s nanos y' m' d' h' mi' s' nanos' : ℕ} (hy : y' < 10000)
    (hm : m' < 100) (hd : d' < 100) (hh : h' < 100) (hmi : mi' < 100) (hs : s' < 100)
    (hnanos : nanos' < 1000000000)
    (hlt : y < y' ∨ y = y' ∧ (m < m' ∨ m = m' ∧ (d < d' ∨ d = d' ∧ (h < h' ∨ h = h' ∧
      (mi < mi' ∨ mi = mi' ∧ (s < s' ∨ s = s' ∧ nanos < nanos')))))) :
    stampFields y m d h mi s nanos < stampFields y' m' d' h' mi' s' nanos' := by
  unfold stampFields
  refine block_lt (by omega) hy _ (hlt.imp_right (And.imp_right fun hmonth => ?_))
  refine block_lt (by omega) hm _ (hmonth.imp_right (And.imp_right fun hday => ?_))
  refine block_lt (by omega) hd _ (hday.imp_right (And.imp_right fun hhour => ?_))
  refine block_lt (by omega) hh _ (hhour.imp_right (And.imp_right fun hminute => ?_))
  refine block_lt (by omega) hmi _ (hminute.imp_right (And.imp_right fun hsecond => ?_))
  refine block_lt (by omega) hs _ (hsecond.imp_right (And.imp_right fun hnano => ?_))
  refine Decimal.append_lt_of_lt ?_ (Decimal.fixed_lt (by omega) hnanos hnano)
  rw [Decimal.fixed_length (by omega) (hnano.trans hnanos), Decimal.fixed_length (by omega) hnanos]

/-- Within four-digit years a later instant has a later text. -/
theorem fmtTs_lt {t t' : Time} (h : FourDigitYear t) (h' : FourDigitYear t') (hlt : t < t') :
    fmtTs t < fmtTs t' := by
  rw [String.lt_iff_toList_lt, fmtTs_toList_of_fourDigit h, fmtTs_toList_of_fourDigit h']
  obtain ⟨y, m, d, hcivil⟩ : ∃ y m d, civilFromDays (dayOf t) = (y, m, d) := ⟨_, _, _, rfl⟩
  obtain ⟨y', m', d', hcivil'⟩ : ∃ y m d, civilFromDays (dayOf t') = (y, m, d) := ⟨_, _, _, rfl⟩
  unfold FourDigitYear at h h'
  rw [hcivil] at h ⊢
  rw [hcivil'] at h' ⊢
  rcases civil_bounds hcivil' with ⟨hm', hd'⟩
  have hsod := secondOfDay_lt t
  have hsod' := secondOfDay_lt t'
  have hnanos := nanosOf_lt t
  have hnanos' := nanosOf_lt t'
  have hsum : (dayOf t * 86400 + (secondOfDay t : ℕ)) * 1000000000 + (nanosOf t : ℕ) <
      (dayOf t' * 86400 + (secondOfDay t' : ℕ)) * 1000000000 + (nanosOf t' : ℕ) := by
    have heq := instant_eq t
    have heq' := instant_eq t'
    rw [← heq, ← heq'] at hlt
    exact hlt
  have hfields := fields_lt hsod hsod' hnanos hnanos' hsum
  simp only at h h' ⊢
  -- the blocks from the first one that differs
  have hyear : y.toNat < y'.toNat ∨ y.toNat = y'.toNat ∧ (m < m' ∨ m = m' ∧ (d < d' ∨ d = d' ∧
      (secondOfDay t / 3600 < secondOfDay t' / 3600 ∨
        secondOfDay t / 3600 = secondOfDay t' / 3600 ∧
          (secondOfDay t / 60 % 60 < secondOfDay t' / 60 % 60 ∨
            secondOfDay t / 60 % 60 = secondOfDay t' / 60 % 60 ∧
              (secondOfDay t % 60 < secondOfDay t' % 60 ∨
                secondOfDay t % 60 = secondOfDay t' % 60 ∧ nanosOf t < nanosOf t'))))) := by
    rcases hfields with hday | ⟨hday, hrest⟩
    · have hdate := civilFromDays_lt hday hcivil hcivil'
      omega
    · rw [hday, hcivil'] at hcivil
      simp only [Prod.mk.injEq] at hcivil
      omega
  exact stampFields_lt (by omega) (by omega) (by omega) (by omega) (by omega) (by omega) hnanos' hyear

/-- A sign is before every digit. -/
theorem fmtTs_lt_of_sign {t t' : Time} (h : ¬ FourDigitYear t) (h' : FourDigitYear t') :
    fmtTs t < fmtTs t' := by
  rcases fmtTs_of_sign h with ⟨c, cs, hc, hlist⟩
  rw [String.lt_iff_toList_lt, hlist, fmtTs_toList_of_fourDigit h']
  unfold stampChars
  have hdigits := Decimal.isDigits_fixed 4 (civilFromDays (dayOf t')).1.toNat
  cases hyear : fixed 4 (civilFromDays (dayOf t')).1.toNat with
  | nil =>
    -- a year has at least one digit
    simp [fixed] at hyear
  | cons d ds =>
    have hd := Decimal.isDigit_toNat (hdigits d (by rw [hyear]; exact List.mem_cons_self ..))
    rw [List.cons_append, List.cons_lt_cons_iff]
    left
    rw [Char.lt_def, UInt32.lt_iff_toNat_lt]
    have hd' : 48 ≤ d.val.toNat := hd.1
    rcases hc with rfl | rfl
    · exact lt_of_lt_of_le (by decide) hd'
    · exact lt_of_lt_of_le (by decide) hd'

/-- The years of four digits have no gap. -/
theorem fourDigitYear_of_between {t u t' : Time} (h : FourDigitYear t) (h' : FourDigitYear t')
    (hle : t ≤ u) (hle' : u ≤ t') : FourDigitYear u := by
  have hday : ∀ {a b : Time}, a ≤ b → dayOf a ≤ dayOf b := by
    intro a b hab
    exact Int.ediv_le_ediv (by decide) (Int.ediv_le_ediv (by decide) hab)
  exact ⟨h.1.trans (civilFromDays_year_le (hday hle) rfl rfl),
    (civilFromDays_year_le (hday hle') rfl rfl).trans h'.2⟩

/-- Within four-digit years the order of the text is chronological. -/
theorem fmtTs_lt_iff {t t' : Time} (h : FourDigitYear t) (h' : FourDigitYear t') :
    fmtTs t < fmtTs t' ↔ t < t' := by
  constructor
  · intro hlt
    rcases lt_trichotomy t t' with hlt' | rfl | hgt
    · exact hlt'
    · exact absurd hlt (lt_irrefl _)
    · exact absurd (fmtTs_lt h' h hgt) (lt_asymm hlt)
  · exact fmtTs_lt h h'

theorem fmtTs_le_iff {t t' : Time} (h : FourDigitYear t) (h' : FourDigitYear t') :
    fmtTs t ≤ fmtTs t' ↔ t ≤ t' := by
  rw [← not_lt, fmtTs_lt_iff h' h, not_lt]

theorem fmtTs_inj {t t' : Time} (h : FourDigitYear t) (h' : FourDigitYear t')
    (heq : fmtTs t = fmtTs t') : t = t' := by
  have hread := parseTs_fmtTs t
  rw [heq, parseTs_fmtTs, if_pos h, if_pos h'] at hread
  exact (Option.some.inj hread).symm

end LightTrack

/-! ## Days as text

A `NaiveDate` is its day counted from 1970-01-01; `dayString` writes it the way a daily
series is keyed.

* `dayString_injective` : a text is that of one day.
-/

namespace LightTrack

/-- One day. -/
def Time.day : Int := 86400 * Time.second

/-- The first instant of a day counted from 1970-01-01. -/
def midnight (day : Int) : Time := Time.day * day

theorem midnight_mono : Monotone midnight := fun _ _ h =>
  mul_le_mul_of_nonneg_left h (by decide)

/-- `day.format("%Y-%m-%d")` -/
def dayString (day : Int) : String :=
  let (y, m, d) := civilFromDays day
  fmtYear y ++ "-" ++ padded 2 m ++ "-" ++ padded 2 d

/-- The sign a year is written with. -/
def yearSign (y : Int) : List Char :=
  if 0 ≤ y ∧ y ≤ 9999 then [] else if y < 0 then ['-'] else ['+']

theorem fmtYear_toList (y : Int) :
    (fmtYear y).toList = yearSign y ++ Decimal.fixed 4 y.natAbs := by
  unfold fmtYear yearSign
  split_ifs with h hneg
  · have hnat : y.toNat = y.natAbs := by omega
    rw [padded_toList, List.nil_append, hnat]
  · rw [String.toList_append, padded_toList]
    rfl
  · rw [String.toList_append, padded_toList]
    rfl

/-- The sign is what of a year is no digit. -/
theorem filter_fmtYear (y : Int) :
    (fmtYear y).toList.filter (fun c => !c.isDigit) = yearSign y ∧
      (fmtYear y).toList.filter (fun c => c.isDigit) = Decimal.fixed 4 y.natAbs := by
  have hdigits := Decimal.isDigits_fixed 4 y.natAbs
  have hnone : (Decimal.fixed 4 y.natAbs).filter (fun c => !c.isDigit) = [] := by
    rw [List.filter_eq_nil_iff]
    intro c hc
    rw [hdigits c hc]
    exact Bool.false_ne_true
  have hall : (Decimal.fixed 4 y.natAbs).filter (fun c => c.isDigit) = Decimal.fixed 4 y.natAbs :=
    List.filter_eq_self.2 hdigits
  rw [fmtYear_toList, List.filter_append, List.filter_append, hnone, hall]
  unfold yearSign
  split_ifs
  · exact ⟨rfl, rfl⟩
  · exact ⟨rfl, rfl⟩
  · exact ⟨rfl, rfl⟩

theorem fmtYear_injective : Function.Injective fmtYear := by
  intro y y' h
  obtain ⟨hsign, hdigits⟩ := filter_fmtYear y
  obtain ⟨hsign', hdigits'⟩ := filter_fmtYear y'
  rw [h, hsign'] at hsign
  rw [h, hdigits'] at hdigits
  have habs : y.natAbs = y'.natAbs := by
    rw [← Decimal.value_fixed 4 y.natAbs, ← hdigits, Decimal.value_fixed]
  unfold yearSign at hsign
  split_ifs at hsign <;> first | omega | simp at hsign

theorem dayString_toList {day y : Int} {m d : ℕ} (hcivil : civilFromDays day = (y, m, d)) :
    (dayString day).toList =
      (fmtYear y).toList ++ '-' :: (Decimal.fixed 2 m ++ '-' :: Decimal.fixed 2 d) := by
  unfold dayString
  rw [hcivil]
  simp only [String.toList_append, padded_toList, List.append_assoc]
  rfl

theorem dayString_injective : Function.Injective dayString := by
  intro day day' h
  obtain ⟨y, m, d, hcivil⟩ : ∃ y m d, civilFromDays day = (y, m, d) := ⟨_, _, _, rfl⟩
  obtain ⟨y', m', d', hcivil'⟩ : ∃ y m d, civilFromDays day' = (y, m, d) := ⟨_, _, _, rfl⟩
  have hwidth : ∀ n < 100, (Decimal.fixed 2 n).length = 2 := fun n hn =>
    Decimal.fixed_length (by omega) hn
  have hm := hwidth m (civil_bounds hcivil).1
  have hd := hwidth d (civil_bounds hcivil).2
  have hm' := hwidth m' (civil_bounds hcivil').1
  have hd' := hwidth d' (civil_bounds hcivil').2
  -- month and day have fixed widths, so they are split off from the end
  have hlist := congrArg String.toList h
  rw [dayString_toList hcivil, dayString_toList hcivil'] at hlist
  obtain ⟨hyear, hrest⟩ := List.append_inj' hlist (by simp [hm, hd, hm', hd'])
  obtain ⟨hmonth, hday⟩ := List.append_inj (List.cons.inj hrest).2 (by rw [hm, hm'])
  have hy : y = y' := fmtYear_injective (String.toList_injective hyear)
  have hmm : m = m' := by
    rw [← Decimal.value_fixed 2 m, hmonth, Decimal.value_fixed]
  have hdd : d = d' := by
    rw [← Decimal.value_fixed 2 d, (List.cons.inj hday).2, Decimal.value_fixed]
  rw [← daysFromCivil_civilFromDays hcivil, hy, hmm, hdd, daysFromCivil_civilFromDays hcivil']

end LightTrack
