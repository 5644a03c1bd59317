import LightTrack.Core.Text
import LightTrack.Lib.Significand
import Mathlib.Tactic.Linarith

/-! # Spellings of numbers

Two spellings of a number are compared by a canonical form: the sign, the significant digits and a
power of ten.  The mantissa may be of any length; the exponent is read as a 64-bit integer.

* `canonicalNumber` : the canonical form of a text,
* `canonicalParts_spec` : a canonical form denotes the number that was spelled,
* `canonicalParts_eq_some_iff` : which spellings have one.
-/

namespace LightTrack.Engine

open Decimal

/-! ## Definitions -/

/-- `i64::MIN ≤ x ≤ i64::MAX` -/
def InI64 (x : Int) : Prop := -9223372036854775808 ≤ x ∧ x ≤ 9223372036854775807

instance : DecidablePred InI64 := fun x =>
  inferInstanceAs (Decidable (-9223372036854775808 ≤ x ∧ x ≤ 9223372036854775807))

/-- An `i64`, or the overflow of a checked operation. -/
def checkedI64 (x : Int) : Option Int := if InI64 x then some x else none

theorem checkedI64_eq {x : Int} (h : InI64 x) : checkedI64 x = some x := if_pos h

theorem checkedI64_eq_some_iff {x y : Int} : checkedI64 x = some y ↔ InI64 x ∧ x = y := by
  unfold checkedI64
  by_cases h : InI64 x
  · rw [if_pos h, Option.some.injEq]
    exact (and_iff_right h).symm
  · rw [if_neg h]
    constructor
    · intro habsurd
      exact absurd habsurd (Option.some_ne_none y).symm
    · rintro ⟨habsurd, -⟩
      exact absurd habsurd h

/-- The sign a text starts with, and the rest. -/
def takeSign : List Char → List Char × List Char
  | '-' :: cs => (['-'], cs)
  | '+' :: cs => (['+'], cs)
  | cs => ([], cs)

/-- `str::parse::<i64>` -/
def parseI64 (cs : List Char) : Option Int :=
  let parts := takeSign cs
  if parts.2 = [] ∨ parts.2.all Char.isDigit = false then none
  else checkedI64 (if parts.1 = ['-'] then -(value parts.2 : Int) else value parts.2)

/-- The zeros digits end with, once they are trimmed at the start. -/
def trailingZeroes (cs : List Char) : ℕ :=
  (cs.dropWhile (· == '0')).length -
    ((cs.dropWhile (· == '0')).rdropWhile (· == '0')).length

/-- Whether the number is negative, its significant digits and its power of ten. -/
abbrev Canonical := Bool × List Char × Int

/-- The canonical form of a sign, the digits before and after the point, and an exponent. -/
def canonicalParts (negative : Bool) (whole fraction combined : List Char) (exponent : Int) :
    Option Canonical :=
  if whole.isEmpty && fraction.isEmpty || !(whole ++ fraction).all Char.isDigit then none
  else if combined.dropWhile (· == '0') = [] then some (false, [], 0)
  else do
    let length ← checkedI64 fraction.length
    let shifted ← checkedI64 (exponent - length)
    let trailing ← checkedI64 (trailingZeroes combined)
    let scaled ← checkedI64 (shifted + trailing)
    return (negative, (combined.dropWhile (· == '0')).rdropWhile (· == '0'), scaled)

/-- The mark of an exponent. -/
def isMark (c : Char) : Bool := c == 'e' || c == 'E'

/-- `canonical_number` of a trimmed text. -/
def canonicalTrimmed (s : List Char) : Option Canonical :=
  let parts := takeSign s
  let mantissa := parts.2.takeWhile fun c => !isMark c
  let exponent := match parts.2.dropWhile fun c => !isMark c with
    | [] => some 0
    | _ :: cs => parseI64 cs
  exponent.bind fun exponent =>
    canonicalParts (decide (parts.1 = ['-'])) (mantissa.takeWhile (· != '.'))
      ((mantissa.dropWhile (· != '.')).drop 1) (mantissa.filter (· != '.')) exponent

/-- `canonical_number` -/
def canonicalNumber (s : String) : Option Canonical := canonicalTrimmed (trimChars isWhite s.toList)

/-- `exact_numbers_equal` -/
def exactNumbersEqual (a b : String) : Bool := decide (canonicalNumber a = canonicalNumber b)

example : exactNumbersEqual "1000" "+1.0e3" = true ∧ exactNumbersEqual "0" "-0.00" = true := by
  decide +kernel

/-! ## What a form denotes -/

namespace Canonical

/-- The number a form denotes. -/
def denotes (f : Canonical) : ℚ := (if f.1 then -1 else 1) * (value f.2.1 * 10 ^ f.2.2)

/-- Zero has one form, and every other number is given by its significant digits. -/
def IsForm (f : Canonical) : Prop := f = (false, [], 0) ∨ IsSignificant f.2.1

theorem denotes_zero : denotes (false, [], 0) = 0 := by
  simp [denotes]

theorem pos_of_isSignificant {cs : List Char} (h : IsSignificant cs) (e : Int) :
    0 < (value cs : ℚ) * 10 ^ e := by
  have hpos : (0 : ℚ) < value cs := by exact_mod_cast Nat.pos_of_ne_zero h.value_ne_zero
  exact mul_pos hpos (zpow_pos (by norm_num) e)

theorem denotes_ne_zero {f : Canonical} (h : IsSignificant f.2.1) : f.denotes ≠ 0 := by
  have hpos := pos_of_isSignificant h f.2.2
  unfold denotes
  split
  · simpa using hpos.ne'
  · simpa using hpos.ne'

/-- **Forms that denote one number are the same.** -/
theorem eq_of_denotes {f g : Canonical} (hf : f.IsForm) (hg : g.IsForm)
    (h : f.denotes = g.denotes) : f = g := by
  rcases hf with rfl | hf
  · rcases hg with rfl | hg
    · rfl
    · rw [denotes_zero] at h
      exact absurd h.symm (denotes_ne_zero hg)
  rcases hg with rfl | hg
  · rw [denotes_zero] at h
    exact absurd h (denotes_ne_zero hf)
  rcases f with ⟨n, cs, e⟩
  rcases g with ⟨n', cs', e'⟩
  have hpos := pos_of_isSignificant hf e
  have hpos' := pos_of_isSignificant hg e'
  dsimp only at hpos hpos' hf hg
  -- the signs agree, so the magnitudes do
  have hsame : n = n' ∧ (value cs : ℚ) * 10 ^ e = value cs' * 10 ^ e' := by
    unfold denotes at h
    dsimp only at h
    cases n with
    | false =>
      cases n' with
      | false => exact ⟨rfl, by simpa using h⟩
      | true =>
        simp only [if_true, if_false, Bool.false_eq_true] at h
        linarith
    | true =>
      cases n' with
      | false =>
        simp only [if_true, if_false, Bool.false_eq_true] at h
        linarith
      | true => exact ⟨rfl, by simpa using h⟩
  rcases hsame with ⟨rfl, hmagnitude⟩
  rcases hf.unique hg hmagnitude with ⟨rfl, rfl⟩
  exact rfl

end Canonical

/-! ## What has a form -/

section Parts

variable {negative : Bool} {whole fraction : List Char} {exponent : Int}

/-- Exponent and lengths stay within 64 bits where there is a digit that counts. -/
structure Shifts (digits fraction : List Char) (exponent : Int) : Prop where
  length : InI64 fraction.length
  shifted : InI64 (exponent - fraction.length)
  trailing : InI64 (trailingZeroes digits)
  scaled : InI64 (exponent - fraction.length + trailingZeroes digits)

/-- What has a form, step by step. -/
theorem canonicalParts_eq_some_iff {f : Canonical} :
    canonicalParts negative whole fraction (whole ++ fraction) exponent = some f ↔
      whole ++ fraction ≠ [] ∧ IsDigits (whole ++ fraction) ∧
        ((value (whole ++ fraction) = 0 ∧ f = (false, [], 0)) ∨
          (value (whole ++ fraction) ≠ 0 ∧ Shifts (whole ++ fraction) fraction exponent ∧
            f = (negative,
              ((whole ++ fraction).dropWhile (· == '0')).rdropWhile (· == '0'),
              exponent - fraction.length + trailingZeroes (whole ++ fraction)))) := by
  have hgood : ¬ (whole.isEmpty && fraction.isEmpty ||
      !(whole ++ fraction).all Char.isDigit) = true ↔
        whole ++ fraction ≠ [] ∧ IsDigits (whole ++ fraction) := by
    rw [Bool.not_eq_true, Bool.or_eq_false_iff, Bool.not_eq_false', List.all_eq_true]
    apply and_congr_left'
    rw [Ne, List.append_eq_nil_iff, ← List.isEmpty_iff, ← List.isEmpty_iff, ← Bool.and_eq_true,
      Bool.not_eq_true]
  unfold canonicalParts
  by_cases hbad : (whole.isEmpty && fraction.isEmpty ||
      !(whole ++ fraction).all Char.isDigit) = true
  · rw [if_pos hbad]
    constructor
    · intro h
      cases h
    · rintro ⟨hne, hdigits, -⟩
      exact absurd hbad (hgood.2 ⟨hne, hdigits⟩)
  rw [if_neg hbad]
  rcases hgood.1 hbad with ⟨hne, hdigits⟩
  have hzero := dropWhile_zero_eq_nil_iff hdigits
  by_cases hval : value (whole ++ fraction) = 0
  · rw [if_pos (hzero.2 hval), Option.some.injEq]
    constructor
    · intro h
      exact ⟨hne, hdigits, .inl ⟨hval, h.symm⟩⟩
    · rintro ⟨-, -, ⟨-, h⟩ | ⟨habsurd, -⟩⟩
      · exact h.symm
      · exact absurd hval habsurd
  rw [if_neg fun h => hval (hzero.1 h)]
  by_cases hshifts : Shifts (whole ++ fraction) fraction exponent
  · rw [checkedI64_eq hshifts.length]
    simp only [Option.bind_eq_bind, Option.bind_some]
    rw [checkedI64_eq hshifts.shifted]
    simp only [Option.bind_some]
    rw [checkedI64_eq hshifts.trailing]
    simp only [Option.bind_some]
    rw [checkedI64_eq hshifts.scaled]
    simp only [Option.bind_some, Option.pure_def, Option.some.injEq]
    constructor
    · intro h
      exact ⟨hne, hdigits, .inr ⟨hval, hshifts, h.symm⟩⟩
    · rintro ⟨-, -, ⟨habsurd, -⟩ | ⟨-, -, h⟩⟩
      · exact absurd habsurd hval
      · exact h.symm
  · constructor
    · -- each step that goes through is within 64 bits
      intro h
      simp only [Option.bind_eq_bind, Option.bind_eq_some_iff, checkedI64_eq_some_iff] at h
      rcases h with ⟨_, ⟨hlength, rfl⟩, _, ⟨hshifted, rfl⟩, _, ⟨htrailing, rfl⟩, _, ⟨hscaled, rfl⟩, -⟩
      exact absurd ⟨hlength, hshifted, htrailing, hscaled⟩ hshifts
    · rintro ⟨-, -, ⟨habsurd, -⟩ | ⟨-, habsurd, -⟩⟩
      · exact absurd habsurd hval
      · exact absurd habsurd hshifts

/-- **A canonical form denotes what was spelled.** -/
theorem canonicalParts_spec {f : Canonical}
    (h : canonicalParts negative whole fraction (whole ++ fraction) exponent = some f) :
    f.IsForm ∧ f.denotes = (if negative then -1 else 1) *
      (value (whole ++ fraction) * 10 ^ (exponent - fraction.length)) := by
  rcases canonicalParts_eq_some_iff.1 h with ⟨hne, hdigits, ⟨hval, rfl⟩ | ⟨hval, hshifts, rfl⟩⟩
  · refine ⟨.inl rfl, ?_⟩
    rw [Canonical.denotes_zero, hval]
    simp
  · have hkept : (whole ++ fraction).dropWhile (· == '0') ≠ [] := fun hnil =>
      hval ((dropWhile_zero_eq_nil_iff hdigits).1 hnil)
    refine ⟨.inr (isSignificant_trim hdigits hkept), ?_⟩
    have hvalue := congrArg (fun n : ℕ => (n : ℚ)) (value_trim (whole ++ fraction))
    rw [← trailingZeroes] at hvalue
    push_cast at hvalue
    unfold Canonical.denotes
    dsimp only
    rw [hvalue, zpow_add₀ (by norm_num), zpow_natCast]
    ring

end Parts

end LightTrack.Engine
