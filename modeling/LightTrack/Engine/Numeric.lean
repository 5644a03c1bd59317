import LightTrack.Engine.Canonical
import LightTrack.Engine.Sample

/-! # The numeric check

The first number of an output is compared with a target.  An integer target is compared exactly, by
the canonical forms of the two spellings.

What counts as a digit when a number is looked for is Unicode's to say, and a parameter; so is the
parser of floating-point numbers.

* `NumberToken` : the spellings the check finds,
* `canonicalNumber_eq_none_iff` : which of them have no canonical form,
* `exact_check_iff` : when the exact comparison is that of the numbers.
-/

namespace LightTrack.Engine

open Decimal

/-! ## Digits -/

/-- The decimal digits of Unicode, with their values. -/
structure DigitTable where
  value : Char → Option ℕ
  ascii : ∀ c, c.isDigit = true → value c = some (c.toNat - '0'.toNat)
  /-- beyond ASCII none of them is white space -/
  other : ∀ c, value c ≠ none → c.isDigit = true ∨ (128 ≤ c.toNat ∧ isWhite c = false)

namespace DigitTable

variable (D : DigitTable)

/-- `\d` -/
def isDigit (c : Char) : Bool := (D.value c).isSome

/-- The number that digits spell. -/
def numeral (cs : List Char) : ℕ := cs.foldl (fun n c => 10 * n + (D.value c).getD 0) 0

variable {D}

theorem isDigit_of_ascii {c : Char} (h : c.isDigit = true) : D.isDigit c = true := by
  rw [isDigit, D.ascii c h, Option.isSome_some]

/-- A digit is none of the other characters a number is spelled with. -/
theorem ne_of_isDigit {c d : Char} (h : D.isDigit c = true) (hd : d.isDigit = false)
    (hascii : d.toNat < 128) : c ≠ d := by
  rintro rfl
  have hsome : D.value c ≠ none := by
    intro hnone
    rw [isDigit, hnone] at h
    cases h
  rcases D.other c hsome with hdigit | ⟨hwide, -⟩
  · rw [hd] at hdigit
    cases hdigit
  · omega

theorem isWhite_of_isDigit {c : Char} (h : D.isDigit c = true) : isWhite c = false := by
  have hsome : D.value c ≠ none := by
    intro hnone
    rw [isDigit, hnone] at h
    cases h
  rcases D.other c hsome with hdigit | ⟨-, hwhite⟩
  · have hrange := isDigit_toNat hdigit
    have hlow : 48 ≤ c.toNat := hrange.1
    have hhigh : c.toNat ≤ 57 := hrange.2
    unfold isWhite
    simp only [Bool.or_eq_false_iff, Bool.and_eq_false_iff, decide_eq_false_iff_not,
      beq_eq_false_iff_ne]
    omega
  · exact hwhite

/-- ASCII digits spell what they spell. -/
theorem numeral_eq_value {cs : List Char} (h : IsDigits cs) : D.numeral cs = Decimal.value cs := by
  have hfold : ∀ (l : List Char) (n : ℕ), IsDigits l →
      l.foldl (fun n c => 10 * n + (D.value c).getD 0) n = Nat.ofDigitChars 10 l n := by
    intro l
    induction l with
    | nil => simp
    | cons c l ih =>
      intro n hl
      rw [List.foldl_cons, Nat.ofDigitChars_cons, ih _ hl.cons.2, D.ascii c hl.cons.1,
        Option.getD_some]
  exact hfold cs 0 h

end DigitTable

/-! ## Tokens -/

/-- An optional sign. -/
inductive Sign where
  | none
  | plus
  | minus
  deriving DecidableEq

namespace Sign

/-- The sign as it is written. -/
def text : Sign → List Char
  | none => []
  | plus => ['+']
  | minus => ['-']

/-- The sign is a minus. -/
def isMinus : Sign → Bool
  | minus => true
  | _ => false

end Sign

variable {D : DigitTable}

/-- An exponent that is written out. -/
structure ExponentPart (D : DigitTable) where
  upper : Bool
  sign : Sign
  digits : List Char
  nonempty : digits ≠ []
  spelled : ∀ c ∈ digits, D.isDigit c = true

namespace ExponentPart

/-- The exponent as it is written. -/
def text (e : ExponentPart D) : List Char :=
  (if e.upper then 'E' else 'e') :: (e.sign.text ++ e.digits)

/-- The power of ten. -/
def value (e : ExponentPart D) : Int :=
  if e.sign.isMinus then -(D.numeral e.digits : Int) else D.numeral e.digits

end ExponentPart

/-- A number as it is found: an optional sign, digits with at most one point among them, and an
optional exponent, each of any length. -/
structure NumberToken (D : DigitTable) where
  sign : Sign
  whole : List Char
  fraction : Option (List Char)
  exponent : Option (ExponentPart D)
  nonempty : whole ++ fraction.getD [] ≠ []
  spelled : ∀ c ∈ whole ++ fraction.getD [], D.isDigit c = true

namespace NumberToken

/-- An integer with a sign or none. -/
def integer (sign : Sign) (digits : List Char) (hne : digits ≠ []) (h : IsDigits digits) :
    NumberToken D where
  sign := sign
  whole := digits
  fraction := none
  exponent := none
  nonempty := fun hnil => hne (List.append_eq_nil_iff.1 hnil).1
  spelled := fun d hd => DigitTable.isDigit_of_ascii
    (h d ((List.mem_append.1 hd).resolve_right List.not_mem_nil))

variable (c : NumberToken D)

/-- The digits of the mantissa. -/
def digits : List Char := c.whole ++ c.fraction.getD []

/-- The mantissa as it is written. -/
def mantissa : List Char :=
  match c.fraction with
  | some f => c.whole ++ '.' :: f
  | none => c.whole

/-- The number as it is written. -/
def text : List Char :=
  c.sign.text ++ (c.mantissa ++ (c.exponent.map ExponentPart.text).getD [])

/-- The power of ten that is written out, or none. -/
def power : Int := (c.exponent.map ExponentPart.value).getD 0

/-- The rational number that is spelled. -/
def value : ℚ :=
  (if c.sign.isMinus then -1 else 1) *
    (D.numeral c.digits * 10 ^ (c.power - (c.fraction.getD []).length))

/-- The spelling is within what the check can read: ASCII digits, an exponent of 64 bits, and where
there is a digit that counts, lengths and exponent that add up within 64 bits. -/
structure Fits : Prop where
  ascii : IsDigits c.digits
  exponentAscii : ∀ e, c.exponent = some e → IsDigits e.digits
  power : InI64 c.power
  shifts : D.numeral c.digits ≠ 0 → Shifts c.digits (c.fraction.getD []) c.power

end NumberToken

/-! ## The canonical form of a token -/

section Text

variable {c : NumberToken D}

theorem takeSign_text (sign : Sign) {cs : List Char} (hplus : cs.head? ≠ some '+')
    (hminus : cs.head? ≠ some '-') : takeSign (sign.text ++ cs) = (sign.text, cs) := by
  cases sign with
  | plus => simp [Sign.text, takeSign]
  | minus => simp [Sign.text, takeSign]
  | none =>
    rw [Sign.text, List.nil_append]
    unfold takeSign
    split
    · simp at hminus
    · simp at hplus
    · rfl

theorem head_ne_of_forall {cs : List Char} {d : Char} (h : ∀ c ∈ cs, c ≠ d) :
    cs.head? ≠ some d := by
  intro hhead
  exact h d (List.mem_of_head? hhead) rfl

/-- The exponent of a token is read as it is meant, or not at all. -/
theorem parseI64_exponent (e : ExponentPart D) : parseI64 (e.sign.text ++ e.digits) =
    if e.digits.all Char.isDigit then checkedI64 e.value else none := by
  have hhead : ∀ d : Char, d.isDigit = false → d.toNat < 128 → e.digits.head? ≠ some d := by
    intro d hd hascii
    exact head_ne_of_forall fun c hc => DigitTable.ne_of_isDigit (e.spelled c hc) hd hascii
  unfold parseI64
  rw [takeSign_text e.sign (hhead '+' (by decide) (by decide)) (hhead '-' (by decide) (by decide))]
  dsimp only
  by_cases hall : e.digits.all Char.isDigit = true
  · have hgood : ¬ (e.digits = [] ∨ e.digits.all Char.isDigit = false) := by
      rw [not_or, Bool.not_eq_false]
      exact ⟨e.nonempty, hall⟩
    have hminus : e.sign.text = ['-'] ↔ e.sign.isMinus = true := by
      cases e.sign <;> simp [Sign.text, Sign.isMinus]
    rw [if_neg hgood, if_pos hall, ExponentPart.value,
      DigitTable.numeral_eq_value (List.all_eq_true.1 hall)]
    congr 1
    simp only [hminus]
  · rw [if_pos (.inr (Bool.eq_false_iff.2 hall)), if_neg hall]

theorem mem_text {ch : Char} (h : ch ∈ c.text) :
    D.isDigit ch = true ∨ ch ∈ ['+', '-', '.', 'e', 'E'] := by
  have hsign : ∀ (s : Sign) (x : Char), x ∈ s.text → x ∈ ['+', '-', '.', 'e', 'E'] := by
    intro s x hx
    cases s <;> simp_all [Sign.text]
  rcases List.mem_append.1 h with hs | h
  · exact .inr (hsign _ _ hs)
  rcases List.mem_append.1 h with hm | he
  · unfold NumberToken.mantissa at hm
    cases hf : c.fraction with
    | none =>
      rw [hf] at hm
      exact .inl (c.spelled ch (List.mem_append_left _ hm))
    | some f =>
      rw [hf] at hm
      rcases List.mem_append.1 hm with hw | hrest
      · exact .inl (c.spelled ch (List.mem_append_left _ hw))
      · rcases List.mem_cons.1 hrest with rfl | hfrac
        · simp
        · exact .inl (c.spelled ch (List.mem_append_right _ (by rw [hf]; exact hfrac)))
  · cases hexp : c.exponent with
    | none =>
      rw [hexp] at he
      simp at he
    | some e =>
      rw [hexp, Option.map_some, Option.getD_some, ExponentPart.text] at he
      rcases List.mem_cons.1 he with rfl | he
      · cases e.upper <;> simp
      · rcases List.mem_append.1 he with hs | hd
        · exact .inr (hsign _ _ hs)
        · exact .inl (e.spelled ch hd)

theorem trim_text (c : NumberToken D) : trimChars isWhite c.text = c.text := by
  apply trimChars_eq_self
  intro ch hch
  rcases mem_text hch with hdigit | hother
  · exact DigitTable.isWhite_of_isDigit hdigit
  · have hall : (['+', '-', '.', 'e', 'E'].all fun x => !isWhite x) = true := by decide
    simpa using List.all_eq_true.1 hall ch hother

/-- The fraction of a token, or nothing. -/
def NumberToken.fractionDigits (c : NumberToken D) : List Char := c.fraction.getD []

/-- What the exponent of a token is read as. -/
def NumberToken.readPower (c : NumberToken D) : Option Int :=
  match c.exponent with
  | none => some 0
  | some e => if e.digits.all Char.isDigit then checkedI64 e.value else none

theorem mem_mantissa {ch : Char} (h : ch ∈ c.mantissa) : D.isDigit ch = true ∨ ch = '.' := by
  unfold NumberToken.mantissa at h
  cases hf : c.fraction with
  | none =>
    rw [hf] at h
    exact .inl (c.spelled ch (List.mem_append_left _ h))
  | some f =>
    rw [hf] at h
    rcases List.mem_append.1 h with hw | hrest
    · exact .inl (c.spelled ch (List.mem_append_left _ hw))
    · rcases List.mem_cons.1 hrest with rfl | hfrac
      · exact .inr rfl
      · exact .inl (c.spelled ch (List.mem_append_right _ (by rw [hf]; exact hfrac)))

theorem mantissa_ne_nil (c : NumberToken D) : c.mantissa ≠ [] := by
  intro hnil
  have hne := c.nonempty
  unfold NumberToken.mantissa at hnil
  cases hf : c.fraction with
  | none =>
    rw [hf] at hnil hne
    simp [hnil] at hne
  | some f =>
    rw [hf] at hnil
    simp at hnil

/-- The point is where the mantissa is split. -/
theorem mantissa_split (c : NumberToken D) :
    c.mantissa.takeWhile (· != '.') = c.whole ∧
      (c.mantissa.dropWhile (· != '.')).drop 1 = c.fractionDigits ∧
      c.mantissa.filter (· != '.') = c.whole ++ c.fractionDigits := by
  have hdigit : ∀ ch ∈ c.whole ++ c.fraction.getD [], (ch != '.') = true := by
    intro ch hch
    rw [bne_iff_ne]
    exact DigitTable.ne_of_isDigit (c.spelled ch hch) (by decide) (by decide)
  have hwhole : ∀ ch ∈ c.whole, (ch != '.') = true := fun ch hch =>
    hdigit ch (List.mem_append_left _ hch)
  unfold NumberToken.mantissa NumberToken.fractionDigits
  cases hf : c.fraction with
  | none =>
    have hkeep : c.whole.filter (· != '.') = c.whole := List.filter_eq_self.2 hwhole
    have htake : c.whole.takeWhile (· != '.') = c.whole := List.takeWhile_eq_self_iff.2 hwhole
    have hdrop : c.whole.dropWhile (· != '.') = [] := List.dropWhile_eq_nil_iff.2 hwhole
    simp [hkeep, htake, hdrop]
  | some f =>
    have hfrac : ∀ ch ∈ f, (ch != '.') = true := fun ch hch =>
      hdigit ch (List.mem_append_right _ (by rw [hf]; exact hch))
    have hkeep : c.whole.filter (· != '.') = c.whole := List.filter_eq_self.2 hwhole
    have hkeep' : f.filter (· != '.') = f := List.filter_eq_self.2 hfrac
    have hstop : ¬ (fun ch : Char => ch != '.') '.' = true := by decide
    refine ⟨?_, ?_, ?_⟩
    · rw [List.takeWhile_append_of_pos hwhole,
        List.takeWhile_cons_of_neg (p := fun ch => ch != '.') hstop, List.append_nil]
    · rw [List.dropWhile_append_of_pos hwhole,
        List.dropWhile_cons_of_neg (p := fun ch => ch != '.') hstop, List.drop_one, List.tail_cons,
        Option.getD_some]
    · rw [List.filter_append, List.filter_cons_of_neg (p := fun ch => ch != '.') hstop, hkeep,
        hkeep', Option.getD_some]

/-- **A token is taken apart as it was put together.** -/
theorem canonicalTrimmed_text (c : NumberToken D) : canonicalTrimmed c.text =
    c.readPower.bind fun power =>
      canonicalParts c.sign.isMinus c.whole c.fractionDigits (c.whole ++ c.fractionDigits)
        power := by
  -- the mantissa is digits and a point, so it has no exponent mark
  have hmark : ∀ ch ∈ c.mantissa, (!isMark ch) = true := by
    intro ch hch
    rcases mem_mantissa hch with hdigit | rfl
    · have hlower := DigitTable.ne_of_isDigit (d := 'e') hdigit (by decide) (by decide)
      have hupper := DigitTable.ne_of_isDigit (d := 'E') hdigit (by decide) (by decide)
      simp [isMark, hlower, hupper]
    · decide
  -- and no sign stands in front of it
  have hhead : ∀ d : Char, d.isDigit = false → d.toNat < 128 → d ≠ '.' →
      (c.mantissa ++ (c.exponent.map ExponentPart.text).getD []).head? ≠ some d := by
    intro d hd hascii hpoint hsome
    rw [List.head?_append_of_ne_nil _ (mantissa_ne_nil c)] at hsome
    rcases mem_mantissa (List.mem_of_head? hsome) with hdigit | hdot
    · exact DigitTable.ne_of_isDigit hdigit hd hascii rfl
    · exact hpoint hdot
  rcases mantissa_split c with ⟨hwhole, hfraction, hcombined⟩
  have hminus : decide (c.sign.text = ['-']) = c.sign.isMinus := by
    cases c.sign <;> decide
  unfold canonicalTrimmed NumberToken.text
  rw [takeSign_text c.sign (hhead '+' (by decide) (by decide) (by decide))
    (hhead '-' (by decide) (by decide) (by decide))]
  dsimp only
  rw [List.takeWhile_append_of_pos hmark, List.dropWhile_append_of_pos hmark, hminus]
  unfold NumberToken.readPower
  cases hexp : c.exponent with
  | none => simp [hwhole, hfraction, hcombined]
  | some e =>
    have hstop : ¬ (fun ch => !isMark ch) (if e.upper then 'E' else 'e') = true := by
      cases e.upper <;> decide
    rw [Option.map_some, Option.getD_some, ExponentPart.text,
      List.takeWhile_cons_of_neg (p := fun ch => !isMark ch) hstop,
      List.dropWhile_cons_of_neg (p := fun ch => !isMark ch) hstop, List.append_nil, hwhole,
      hfraction, hcombined]
    dsimp only
    rw [parseI64_exponent]

theorem readPower_eq_some_iff {power : Int} : c.readPower = some power ↔
    (∀ e, c.exponent = some e → IsDigits e.digits) ∧ InI64 c.power ∧ c.power = power := by
  unfold NumberToken.readPower NumberToken.power
  cases hexp : c.exponent with
  | none =>
    have hzero : InI64 0 := by decide
    simp [hzero]
  | some e =>
    simp only [Option.map_some, Option.getD_some, Option.some.injEq]
    by_cases hall : e.digits.all Char.isDigit = true
    · rw [if_pos hall, checkedI64_eq_some_iff]
      have hdigits : ∀ e', e = e' → IsDigits e'.digits := by
        rintro e' rfl
        exact List.all_eq_true.1 hall
      exact (and_iff_right hdigits).symm
    · rw [if_neg hall]
      constructor
      · intro h
        cases h
      · rintro ⟨hdigits, -⟩
        exact absurd (List.all_eq_true.2 (hdigits e rfl)) hall

/-- **A token with a canonical form fits**, and the form denotes the number that is spelled. -/
theorem canonicalTrimmed_spec {f : Canonical} (h : canonicalTrimmed c.text = some f) :
    c.Fits ∧ f.IsForm ∧ f.denotes = c.value := by
  rw [canonicalTrimmed_text, Option.bind_eq_some_iff] at h
  rcases h with ⟨power, hpower, hparts⟩
  rcases readPower_eq_some_iff.1 hpower with ⟨hascii, hin, rfl⟩
  have hspec := canonicalParts_spec hparts
  rcases canonicalParts_eq_some_iff.1 hparts with ⟨-, hdigits, hcases⟩
  have hnumeral : D.numeral c.digits = value (c.whole ++ c.fractionDigits) :=
    DigitTable.numeral_eq_value hdigits
  refine ⟨⟨hdigits, hascii, hin, ?_⟩, hspec.1, ?_⟩
  · intro hne
    rw [hnumeral] at hne
    rcases hcases with ⟨hzero, -⟩ | ⟨-, hshifts, -⟩
    · exact absurd hzero hne
    · exact hshifts
  · rw [hspec.2, NumberToken.value, hnumeral]
    rfl

theorem canonicalTrimmed_of_fits (h : c.Fits) : ∃ f, canonicalTrimmed c.text = some f := by
  have hnumeral : D.numeral c.digits = value (c.whole ++ c.fractionDigits) :=
    DigitTable.numeral_eq_value h.ascii
  rw [canonicalTrimmed_text, readPower_eq_some_iff.2 ⟨h.exponentAscii, h.power, rfl⟩,
    Option.bind_some]
  by_cases hzero : value (c.whole ++ c.fractionDigits) = 0
  · exact ⟨_, canonicalParts_eq_some_iff.2 ⟨c.nonempty, h.ascii, .inl ⟨hzero, rfl⟩⟩⟩
  · have hshifts := h.shifts (by rw [hnumeral]; exact hzero)
    exact ⟨_, canonicalParts_eq_some_iff.2 ⟨c.nonempty, h.ascii, .inr ⟨hzero, hshifts, rfl⟩⟩⟩

/-- Which spellings have no canonical form. -/
theorem canonicalNumber_eq_none_iff :
    canonicalNumber (String.ofList c.text) = none ↔ ¬ c.Fits := by
  unfold canonicalNumber
  rw [String.toList_ofList, trim_text]
  constructor
  · intro hnone hfits
    rcases canonicalTrimmed_of_fits hfits with ⟨f, hf⟩
    rw [hnone] at hf
    cases hf
  · intro hno
    cases hf : canonicalTrimmed c.text with
    | none => rfl
    | some f => exact absurd (canonicalTrimmed_spec hf).1 hno

/-- **Two spellings that fit have one canonical form exactly when they spell one number.** -/
theorem canonicalNumber_eq_iff {c' : NumberToken D} (h : c.Fits) (h' : c'.Fits) :
    canonicalNumber (String.ofList c.text) = canonicalNumber (String.ofList c'.text) ↔
      c.value = c'.value := by
  rcases canonicalTrimmed_of_fits h with ⟨f, hf⟩
  rcases canonicalTrimmed_of_fits h' with ⟨f', hf'⟩
  rcases canonicalTrimmed_spec hf with ⟨-, hform, hdenotes⟩
  rcases canonicalTrimmed_spec hf' with ⟨-, hform', hdenotes'⟩
  unfold canonicalNumber
  rw [String.toList_ofList, String.toList_ofList, trim_text, trim_text, hf, hf', Option.some.injEq,
    ← hdenotes, ← hdenotes']
  constructor
  · intro heq
    rw [heq]
  · exact Canonical.eq_of_denotes hform hform'

end Text

/-! ## Finding a number -/

/-- `(?:\.\d+)?`, and the rest. -/
def takeFraction (D : DigitTable) : List Char → List Char × List Char
  | '.' :: cs =>
    if (cs.takeWhile D.isDigit).isEmpty then ([], '.' :: cs)
    else ('.' :: cs.takeWhile D.isDigit, cs.dropWhile D.isDigit)
  | cs => ([], cs)

/-- `(?:[eE][-+]?\d+)?` -/
def takeExponent (D : DigitTable) : List Char → List Char
  | mark :: cs =>
    let digits := (takeSign cs).2.takeWhile D.isDigit
    if isMark mark && !digits.isEmpty then mark :: ((takeSign cs).1 ++ digits) else []
  | [] => []

/-- The expression of `first_number` at the start of a text. -/
def matchNumber (D : DigitTable) (cs : List Char) : Option (List Char) :=
  let signed := takeSign cs
  let whole := signed.2.takeWhile D.isDigit
  let fraction := takeFraction D (signed.2.dropWhile D.isDigit)
  if whole.isEmpty then none
  else some (signed.1 ++ (whole ++ fraction.1 ++ takeExponent D fraction.2))

/-- `inf`, `infinity` or `nan`, in any case. -/
def isFloatWord (cs : List Char) : Bool :=
  decide (cs.map Char.toLower ∈ ["inf".toList, "infinity".toList, "nan".toList])

/-- The exponent a float may end with. -/
def isExponent : List Char → Bool
  | [] => true
  | mark :: cs => isMark mark && !(takeSign cs).2.isEmpty && (takeSign cs).2.all Char.isDigit

/-- Digits with at most one point among them, and an exponent or none. -/
def isDecimal (cs : List Char) : Bool :=
  let whole := cs.takeWhile Char.isDigit
  match cs.dropWhile Char.isDigit with
  | '.' :: rest =>
    !(whole ++ rest.takeWhile Char.isDigit).isEmpty && isExponent (rest.dropWhile Char.isDigit)
  | rest => !whole.isEmpty && isExponent rest

/-- The texts `str::parse::<f64>` takes. -/
def parsesF64 (cs : List Char) : Bool :=
  isFloatWord (takeSign cs).2 || isDecimal (takeSign cs).2

/-- The floating-point numbers of the language. -/
structure F64Reader where
  Num : Type
  parse : String → Option Num
  /-- `(actual - expected).abs() <= tolerance` -/
  within : Num → Num → Num → Bool
  display : Num → String
  grammar : ∀ s, (parse s).isSome = parsesF64 s.toList

/-- `first_number`: the whole text if it parses, else its first numeric token. -/
def firstNumber (fl : F64Reader) (D : DigitTable) (s : String) : Option String :=
  if (fl.parse (strTrim s)).isSome then some (strTrim s)
  else (s.toList.tails.findSome? (matchNumber D)).map String.ofList

section Find

/-- What a sign splits off. -/
theorem takeSign_eq (cs : List Char) : ∃ sign : Sign, (takeSign cs).1 = sign.text ∧
    cs = sign.text ++ (takeSign cs).2 := by
  unfold takeSign
  split
  · exact ⟨.minus, rfl, rfl⟩
  · exact ⟨.plus, rfl, rfl⟩
  · exact ⟨.none, rfl, rfl⟩

theorem forall_takeWhile (p : Char → Bool) (cs : List Char) :
    ∀ c ∈ cs.takeWhile p, p c = true := fun _ hc => List.mem_takeWhile_imp hc

/-- An exponent that is found is one. -/
theorem takeExponent_eq (D : DigitTable) (cs : List Char) : ∃ exponent : Option (ExponentPart D),
    takeExponent D cs = (exponent.map ExponentPart.text).getD [] := by
  cases cs with
  | nil => exact ⟨none, rfl⟩
  | cons mark cs =>
    rcases takeSign_eq cs with ⟨sign, hsign, -⟩
    unfold takeExponent
    dsimp only
    split
    · rename_i hfound
      rw [Bool.and_eq_true, Bool.not_eq_true', List.isEmpty_eq_false_iff] at hfound
      refine ⟨some ⟨mark == 'E', sign, _, hfound.2, forall_takeWhile _ _⟩, ?_⟩
      rw [Option.map_some, Option.getD_some, ExponentPart.text, hsign]
      congr 1
      have hmark := hfound.1
      unfold isMark at hmark
      rw [Bool.or_eq_true, beq_iff_eq, beq_iff_eq] at hmark
      rcases hmark with rfl | rfl
      · rfl
      · rfl
    · exact ⟨none, rfl⟩

/-- **What is matched is a token.** -/
theorem matchNumber_token {D : DigitTable} {cs found : List Char}
    (h : matchNumber D cs = some found) : ∃ c : NumberToken D, c.text = found := by
  rcases takeSign_eq cs with ⟨sign, hsign, -⟩
  unfold matchNumber at h
  dsimp only at h
  split at h
  · cases h
  rename_i hwhole
  rw [List.isEmpty_iff] at hwhole
  rw [Option.some.injEq, hsign] at h
  rcases takeExponent_eq D (takeFraction D ((takeSign cs).2.dropWhile D.isDigit)).2 with
    ⟨exponent, hexponent⟩
  rw [hexponent] at h
  have hdigits := forall_takeWhile D.isDigit (takeSign cs).2
  -- the fraction is there, or there is none
  have hfraction : (takeFraction D ((takeSign cs).2.dropWhile D.isDigit)).1 = [] ∨
      ∃ f, (takeFraction D ((takeSign cs).2.dropWhile D.isDigit)).1 = '.' :: f ∧
        ∀ c ∈ f, D.isDigit c = true := by
    unfold takeFraction
    split
    · split
      · exact .inl rfl
      · exact .inr ⟨_, rfl, forall_takeWhile _ _⟩
    · exact .inl rfl
  rcases hfraction with hnone | ⟨f, hsome, hf⟩
  · rw [hnone, List.append_nil] at h
    refine ⟨⟨sign, (takeSign cs).2.takeWhile D.isDigit, none, exponent, ?_, ?_⟩, ?_⟩
    · rw [Option.getD_none, List.append_nil]
      exact hwhole
    · intro c hc
      rw [Option.getD_none, List.append_nil] at hc
      exact hdigits c hc
    · rw [← h]
      rfl
  · rw [hsome] at h
    refine ⟨⟨sign, (takeSign cs).2.takeWhile D.isDigit, some f, exponent, ?_, ?_⟩, ?_⟩
    · intro hnil
      exact hwhole (List.append_eq_nil_iff.1 hnil).1
    · intro c hc
      rcases List.mem_append.1 hc with hc | hc
      · exact hdigits c hc
      · exact hf c hc
    · rw [← h]
      rfl

theorem isExponent_eq (D : DigitTable) {cs : List Char} (h : isExponent cs = true) :
    ∃ exponent : Option (ExponentPart D), cs = (exponent.map ExponentPart.text).getD [] := by
  cases cs with
  | nil => exact ⟨none, rfl⟩
  | cons mark cs =>
    rcases takeSign_eq cs with ⟨sign, -, hcs⟩
    unfold isExponent at h
    rw [Bool.and_eq_true, Bool.and_eq_true, Bool.not_eq_true', List.isEmpty_eq_false_iff,
      List.all_eq_true] at h
    rcases h with ⟨⟨hmark, hne⟩, hall⟩
    refine ⟨some ⟨mark == 'E', sign, (takeSign cs).2, hne, fun c hc =>
      DigitTable.isDigit_of_ascii (hall c hc)⟩, ?_⟩
    rw [Option.map_some, Option.getD_some, ExponentPart.text, ← hcs]
    congr 1
    unfold isMark at hmark
    rw [Bool.or_eq_true, beq_iff_eq, beq_iff_eq] at hmark
    rcases hmark with rfl | rfl
    · rfl
    · rfl

/-- A decimal that parses as a float is a token. -/
theorem isDecimal_token (D : DigitTable) {cs : List Char} (h : isDecimal (takeSign cs).2 = true) :
    ∃ c : NumberToken D, c.text = cs := by
  rcases takeSign_eq cs with ⟨sign, -, hcs⟩
  generalize (takeSign cs).2 = rest at h hcs
  have hsplit := List.takeWhile_append_dropWhile (p := Char.isDigit) (l := rest)
  have hascii : ∀ l : List Char, ∀ c ∈ l.takeWhile Char.isDigit, D.isDigit c = true :=
    fun l c hc => DigitTable.isDigit_of_ascii (List.mem_takeWhile_imp hc)
  unfold isDecimal at h
  dsimp only at h
  split at h
  · rename_i tail htail
    rw [Bool.and_eq_true, Bool.not_eq_true', List.isEmpty_eq_false_iff] at h
    rcases isExponent_eq D h.2 with ⟨exponent, hexponent⟩
    have hsplit' := List.takeWhile_append_dropWhile (p := Char.isDigit) (l := tail)
    refine ⟨⟨sign, rest.takeWhile Char.isDigit, some (tail.takeWhile Char.isDigit), exponent, h.1,
      ?_⟩, ?_⟩
    · intro c hc
      rcases List.mem_append.1 hc with hc | hc
      · exact hascii _ c hc
      · exact hascii _ c hc
    · rw [hcs]
      conv_rhs => rw [← hsplit, htail, ← hsplit', hexponent]
      simp [NumberToken.text, NumberToken.mantissa]
  · rw [Bool.and_eq_true, Bool.not_eq_true', List.isEmpty_eq_false_iff] at h
    rcases isExponent_eq D h.2 with ⟨exponent, hexponent⟩
    refine ⟨⟨sign, rest.takeWhile Char.isDigit, none, exponent, ?_, ?_⟩, ?_⟩
    · rw [Option.getD_none, List.append_nil]
      exact h.1
    · intro c hc
      rw [Option.getD_none, List.append_nil] at hc
      exact hascii _ c hc
    · rw [hcs]
      conv_rhs => rw [← hsplit, hexponent]
      simp [NumberToken.text, NumberToken.mantissa]

/-- What is found is a token, or the word for no number. -/
theorem firstNumber_token {fl : F64Reader} {D : DigitTable} {s found : String}
    (h : firstNumber fl D s = some found) :
    (∃ c : NumberToken D, String.ofList c.text = found) ∨
      isFloatWord (takeSign (trimChars isWhite found.toList)).2 = true := by
  unfold firstNumber at h
  split at h
  · rename_i hparse
    rw [fl.grammar, parsesF64, Bool.or_eq_true] at hparse
    rw [Option.some.injEq] at h
    rw [h] at hparse
    rcases hparse with hword | hdecimal
    · right
      have htrim : trimChars isWhite found.toList = found.toList := by
        rw [← h, strTrim, String.toList_ofList, trimChars_trimChars]
      rw [htrim]
      exact hword
    · rcases isDecimal_token D hdecimal with ⟨c, hc⟩
      exact .inl ⟨c, by rw [hc, String.ofList_toList]⟩
  · rcases Option.map_eq_some_iff.1 h with ⟨cs, hcs, rfl⟩
    rcases List.exists_of_findSome?_eq_some hcs with ⟨tail, -, htail⟩
    rcases matchNumber_token htail with ⟨c, rfl⟩
    exact .inl ⟨c, rfl⟩

end Find

/-! ## The check -/

/-- `SNIP` -/
def SNIP : ℕ := 120

/-- `snip` -/
def snip (s : String) : String :=
  if s.toList.length ≤ SNIP then s else String.ofList (s.toList.take (SNIP - 1) ++ ['…'])

/-- `verdict`: a pass or a fail, said at the end. -/
def verdict (pass : Bool) (detail : String) : Option Score × String :=
  (some (.clamp (if pass then 1 else 0)), detail ++ " → " ++ if pass then "pass" else "fail")

/-- `integer_literal` -/
def integerLiteral (s : String) : Bool :=
  let digits := (takeSign (trimChars isWhite s.toList)).2
  !digits.isEmpty && digits.all Char.isDigit

/-- The verdict on an output without a number. -/
def noNumber (target subject : String) : Option Score × String :=
  (some (.clamp 0),
    "numeric: expected `" ++ target ++ "`, no number in `" ++ snip subject ++ "` → fail")

/-- The verdict on a number against a target that is not an integer. -/
def compareFloats (fl : F64Reader) (target subject actual : String) (expected tolerance : fl.Num) :
    Option Score × String :=
  match fl.parse actual with
  | none => noNumber target subject
  | some number => verdict (fl.within number expected tolerance)
      ("numeric: expected `" ++ fl.display expected ++ "`, got `" ++ fl.display number ++
        "`, tolerance " ++ fl.display tolerance)

/-- The verdict on a number against an integer target. -/
def compareExactly (target actual : String) : Option Score × String :=
  verdict (exactNumbersEqual target actual)
    ("numeric: expected `" ++ target ++ "`, got `" ++ actual ++
      "`, integer target compares exactly")

/-- `evaluate` of the numeric check. -/
def evaluateNumeric (fl : F64Reader) (D : DigitTable) (key target subject : String)
    (tolerance : fl.Num) : Except EngineError (Option Score × String) :=
  if integerLiteral target then
    match firstNumber fl D subject with
    | none => .ok (noNumber target subject)
    | some actual => .ok (compareExactly target actual)
  else
    match fl.parse target with
    | none => .error (.other ("rubric dimension '" ++ key ++ "' (numeric) target `" ++ target ++
        "` is not a number"))
    | some expected =>
      match firstNumber fl D subject with
      | none => .ok (noNumber target subject)
      | some actual => .ok (compareFloats fl target subject actual expected tolerance)

/-- The integer an integer literal spells. -/
def integerValue (target : String) : Int :=
  let parts := takeSign (trimChars isWhite target.toList)
  if parts.1 = ['-'] then -(value parts.2 : Int) else value parts.2

section Check

variable {target : String}

theorem trailingZeroes_le (cs : List Char) : trailingZeroes cs ≤ cs.length := by
  have hle := (List.dropWhile_suffix (p := (· == '0')) (l := cs)).length_le
  unfold trailingZeroes
  omega

/-- An integer literal is a token, and it fits. -/
theorem integerLiteral_token (D : DigitTable) (h : integerLiteral target = true)
    (hlen : target.toList.length < 2 ^ 63) :
    ∃ c : NumberToken D, canonicalNumber target = canonicalNumber (String.ofList c.text) ∧
      c.Fits ∧ c.value = integerValue target := by
  rcases takeSign_eq (trimChars isWhite target.toList) with ⟨sign, hsign, hcs⟩
  unfold integerLiteral at h
  dsimp only at h
  rw [Bool.and_eq_true, Bool.not_eq_true', List.isEmpty_eq_false_iff, List.all_eq_true] at h
  rcases h with ⟨hne, hdigits⟩
  -- trimming and taking off the sign make the text no longer
  have hshort : (takeSign (trimChars isWhite target.toList)).2.length < 2 ^ 63 := by
    have hall : (trimChars isWhite target.toList).length ≤ target.toList.length := by
      have hfirst := (List.dropWhile_suffix (p := isWhite) (l := target.toList)).length_le
      have hlast := (List.dropWhile_suffix (p := isWhite)
        (l := (target.toList.dropWhile isWhite).reverse)).length_le
      rw [List.length_reverse] at hlast
      rw [trimChars, List.length_reverse]
      omega
    have hsum := congrArg List.length hcs
    rw [List.length_append] at hsum
    omega
  -- an integer has no fraction and no exponent
  have htext : (NumberToken.integer (D := D) sign _ hne hdigits).text =
      trimChars isWhite target.toList := by
    conv_rhs => rw [hcs]
    simp [NumberToken.text, NumberToken.mantissa, NumberToken.integer]
  refine ⟨.integer sign _ hne hdigits, ?_, ?_, ?_⟩
  · unfold canonicalNumber
    rw [String.toList_ofList, trim_text, htext]
  · constructor
    · intro d hd
      exact hdigits d ((List.mem_append.1 hd).resolve_right List.not_mem_nil)
    · intro e he
      cases he
    · show InI64 0
      decide
    · intro _
      have htrailing := trailingZeroes_le ((takeSign (trimChars isWhite target.toList)).2 ++ [])
      rw [List.length_append, List.length_nil] at htrailing
      constructor
      · show InI64 0
        decide
      · show InI64 0
        decide
      · show InI64 (trailingZeroes ((takeSign (trimChars isWhite target.toList)).2 ++ []) : ℕ)
        unfold InI64
        omega
      · show InI64 (0 - (0 : ℕ) +
          (trailingZeroes ((takeSign (trimChars isWhite target.toList)).2 ++ []) : ℕ))
        unfold InI64
        omega
  · have hminus : (takeSign (trimChars isWhite target.toList)).1 = ['-'] ↔ sign.isMinus = true := by
      rw [hsign]
      cases sign <;> simp [Sign.text, Sign.isMinus]
    have hnumeral := DigitTable.numeral_eq_value (D := D) hdigits
    unfold integerValue NumberToken.value NumberToken.power NumberToken.digits NumberToken.integer
    simp only [hminus, List.append_nil, Option.getD_none, Option.map_none, hnumeral,
      List.length_nil]
    split
    · simp
    · simp

theorem toLower_of_isDigit {c : Char} (h : c.isDigit = true) : c.toLower = c := by
  apply dif_neg
  rintro ⟨hlow, -⟩
  have hhigh : c.toNat ≤ 57 := (isDigit_toNat h).2
  have hlow' : 65 ≤ c.toNat := UInt32.le_iff_toNat_le.1 hlow
  omega

/-- A word for no number has no canonical form. -/
theorem canonicalNumber_word {s : String}
    (h : isFloatWord (takeSign (trimChars isWhite s.toList)).2 = true) :
    canonicalNumber s = none := by
  unfold canonicalNumber canonicalTrimmed
  generalize takeSign (trimChars isWhite s.toList) = parts at h ⊢
  rcases parts with ⟨sign, rest⟩
  dsimp only at h ⊢
  obtain ⟨ch, tail, rfl, hch⟩ : ∃ ch tail, rest = ch :: tail ∧
      (ch.toLower = 'i' ∨ ch.toLower = 'n') := by
    unfold isFloatWord at h
    rw [decide_eq_true_eq] at h
    cases rest with
    | nil => simp at h
    | cons ch tail =>
      refine ⟨ch, tail, rfl, ?_⟩
      simp only [List.map_cons, List.mem_cons, List.not_mem_nil, or_false] at h
      rcases h with h | h | h
      · exact .inl (List.cons.inj h).1
      · exact .inl (List.cons.inj h).1
      · exact .inr (List.cons.inj h).1
  -- the first character is neither the mark of an exponent, nor a point, nor a digit
  have hother : ∀ x : Char, x.toLower ≠ 'i' → x.toLower ≠ 'n' → ch ≠ x := by
    rintro x hi hn rfl
    rcases hch with h | h
    · exact hi h
    · exact hn h
  have hmark : (fun x => !isMark x) ch = true := by
    have hlower := hother 'e' (by decide) (by decide)
    have hupper := hother 'E' (by decide) (by decide)
    simp [isMark, hlower, hupper]
  have hpoint : (fun x : Char => x != '.') ch = true := by
    have hne := hother '.' (by decide) (by decide)
    simpa using hne
  have hdigit : ch.isDigit = false := by
    rw [← Bool.not_eq_true]
    intro hyes
    have hsame := toLower_of_isDigit hyes
    rw [hsame] at hch
    rcases hch with rfl | rfl
    · revert hyes
      decide
    · revert hyes
      decide
  rw [List.takeWhile_cons_of_pos (p := fun x => !isMark x) hmark,
    List.takeWhile_cons_of_pos (p := fun x => x != '.') hpoint, Option.bind_eq_none_iff]
  intro power _
  unfold canonicalParts
  rw [if_pos]
  simp [hdigit]

theorem clamp_one_ne_zero : Score.clamp 1 ≠ Score.clamp 0 := by decide +kernel

theorem verdict_fst (pass : Bool) (detail : String) :
    (verdict pass detail).1 = some (.clamp 1) ∨ (verdict pass detail).1 = some (.clamp 0) := by
  cases pass
  · exact .inr rfl
  · exact .inl rfl

theorem verdict_pass (pass : Bool) (detail : String) :
    (verdict pass detail).1 = some (.clamp 1) ↔ pass = true := by
  cases pass with
  | true => simp [verdict]
  | false =>
    constructor
    · intro h
      exact absurd (Option.some.inj h).symm clamp_one_ne_zero
    · intro h
      cases h

/-- **The exact check.**  Against an integer target every output is scored one or zero: one exactly
where its number is found, fits and is the target.  The comparison of the canonical forms is that of
the numbers exactly where the spelling fits or the numbers differ. -/
theorem exact_check_iff (fl : F64Reader) (D : DigitTable) (key target : String) (tolerance : fl.Num)
    (hint : integerLiteral target = true) (hlen : target.toList.length < 2 ^ 63) :
    (∀ c : NumberToken D,
      (canonicalNumber target = canonicalNumber (String.ofList c.text) ↔
        c.value = integerValue target) ↔ (c.Fits ∨ c.value ≠ integerValue target)) ∧
    ∀ subject, ∃ out, evaluateNumeric fl D key target subject tolerance = .ok out ∧
      (out.1 = some (.clamp 1) ∨ out.1 = some (.clamp 0)) ∧
      (out.1 = some (.clamp 1) ↔ ∃ c : NumberToken D,
        firstNumber fl D subject = some (String.ofList c.text) ∧ c.Fits ∧
          c.value = integerValue target) := by
  rcases integerLiteral_token D hint hlen with ⟨t, hcanonical, hfits, hvalue⟩
  have heq : ∀ c : NumberToken D, canonicalNumber target = canonicalNumber (String.ofList c.text) ↔
      c.Fits ∧ c.value = integerValue target := by
    intro c
    by_cases hc : c.Fits
    · rw [hcanonical, canonicalNumber_eq_iff hfits hc, hvalue]
      exact ⟨fun h => ⟨hc, h.symm⟩, fun h => h.2.symm⟩
    · constructor
      · intro h
        rw [canonicalNumber_eq_none_iff.2 hc, hcanonical, canonicalNumber_eq_none_iff] at h
        exact absurd hfits h
      · rintro ⟨habsurd, -⟩
        exact absurd habsurd hc
  constructor
  · intro c
    rw [heq]
    tauto
  · intro subject
    unfold evaluateNumeric
    rw [if_pos hint]
    cases hfound : firstNumber fl D subject with
    | none =>
      refine ⟨_, rfl, .inr rfl, ?_⟩
      constructor
      · intro h
        exact absurd (Option.some.inj h).symm clamp_one_ne_zero
      · rintro ⟨c, habsurd, -⟩
        cases habsurd
    | some actual =>
      refine ⟨_, rfl, verdict_fst _ _, ?_⟩
      unfold compareExactly exactNumbersEqual
      rw [verdict_pass, decide_eq_true_eq]
      constructor
      · intro h
        rcases firstNumber_token hfound with ⟨c, rfl⟩ | hword
        · exact ⟨c, rfl, (heq c).1 h⟩
        · -- the target has a canonical form
          rw [canonicalNumber_word hword, hcanonical, canonicalNumber_eq_none_iff] at h
          exact absurd hfits h
      · rintro ⟨c, hc, hfits', hvalue'⟩
        rw [Option.some.inj hc]
        exact (heq c).2 ⟨hfits', hvalue'⟩

theorem isDigit_of_ite {α : Type*} {c : Char} {x : α}
    (h : (if c.isDigit = true then some x else none) ≠ none) : c.isDigit = true := by
  by_contra hno
  exact h (if_neg hno)

/-- The digits of ASCII alone. -/
def asciiDigits : DigitTable where
  value := fun c => if c.isDigit then some (c.toNat - '0'.toNat) else none
  ascii := fun _ h => if_pos h
  other := fun _ h => .inl (isDigit_of_ite h)

theorem isSome_ite (b : Bool) : (if b then some () else none).isSome = b := by
  cases b with
  | true => rfl
  | false => rfl

/-- A reader that tells what parses, and nothing of the numbers. -/
def blankFloats : F64Reader where
  Num := Unit
  parse := fun s => if parsesF64 s.toList then some () else none
  within := fun _ _ _ => true
  display := fun _ => ""
  grammar := fun s => isSome_ite (parsesF64 s.toList)

/-- An answer in a sentence, spelled with an exponent. -/
theorem exact_check_iff_sample :
    ∃ out, evaluateNumeric blankFloats asciiDigits "total" "1000" "the total is 1.0e3" () =
      .ok out ∧ (out.1 = some (.clamp 1) ∨ out.1 = some (.clamp 0)) := by
  rcases (exact_check_iff blankFloats asciiDigits "total" "1000" () (by decide +kernel)
    (by decide +kernel)).2 "the total is 1.0e3" with ⟨out, hout, hscore, -⟩
  exact ⟨out, hout, hscore⟩

/-- A zero whose exponent is beyond 64 bits. -/
def hugeZero : NumberToken asciiDigits where
  sign := .none
  whole := ['0']
  fraction := none
  exponent := some
    { upper := false
      sign := .none
      digits := "99999999999999999999".toList
      nonempty := by decide +kernel
      spelled := List.all_eq_true.1 (by decide +kernel) }
  nonempty := by decide +kernel
  spelled := List.all_eq_true.1 (by decide +kernel)

/-- **A zero that is not zero**: `0e99999999999999999999` has no canonical form. -/
theorem huge_exponent_zero_unequal :
    ¬ ∀ (D : DigitTable) (target : String) (c : NumberToken D), integerLiteral target = true →
      (canonicalNumber target = canonicalNumber (String.ofList c.text) ↔
        c.value = integerValue target) := by
  intro h
  have hvalue : hugeZero.value = integerValue "0" := by
    have hnumeral : asciiDigits.numeral hugeZero.digits = 0 := by decide +kernel
    have hzero : integerValue "0" = 0 := by decide +kernel
    rw [NumberToken.value, hnumeral, hzero]
    simp
  have hsame := (h asciiDigits "0" hugeZero (by decide +kernel)).2 hvalue
  revert hsame
  decide +kernel

end Check

end LightTrack.Engine
