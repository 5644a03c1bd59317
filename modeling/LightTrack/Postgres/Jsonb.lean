import LightTrack.Core.Json
import LightTrack.Lib.Decimal
import Mathlib.Data.List.TakeWhile
import Mathlib.Tactic.IntervalCases

/-! # The text-to-jsonb cast

The usage queries on Postgres cast the metadata column, a TEXT, to `jsonb`.  The cast
parses by its own grammar: literal control characters and the escape `\u0000` are
refused, surrogates must come in pairs, numbers have no leading zero.

* `jsonbIn` : the cast,
* `jsonbIn_render` : what it makes of a text `serde_json` wrote.  It reads the value
  back, unless some string or key holds U+0000; then it raises.
-/

namespace LightTrack

namespace Json

/-! ## What a value holds -/

mutual

/-- No string and no key holds U+0000. -/
def nulFree : Json → Bool
  | str s => !s.toList.contains '\x00'
  | arr xs => nulFreeItems xs
  | obj fields => nulFreeFields fields
  | _ => true

def nulFreeItems : List Json → Bool
  | [] => true
  | x :: xs => x.nulFree && nulFreeItems xs

def nulFreeFields : List (String × Json) → Bool
  | [] => true
  | (k, v) :: fields => !k.toList.contains '\x00' && v.nulFree && nulFreeFields fields

end

end Json

namespace Jsonb

/-! ## Tokens -/

/-- JSON whitespace. -/
def isWs (c : Char) : Bool := c == ' ' || c == '\t' || c == '\n' || c == '\r'

def skipWs (cs : List Char) : List Char := cs.dropWhile isWs

/-- The value of a hexadecimal digit. -/
def hexDigit (c : Char) : Option ℕ :=
  if c.isDigit then some (c.toNat - 48)
  else if 'a' ≤ c ∧ c ≤ 'f' then some (c.toNat - 87)
  else if 'A' ≤ c ∧ c ≤ 'F' then some (c.toNat - 55)
  else none

/-- Four hexadecimal digits. -/
def lexHex4 : List Char → Option (ℕ × List Char)
  | a :: b :: c :: d :: cs => do
    let a ← hexDigit a
    let b ← hexDigit b
    let c ← hexDigit c
    let d ← hexDigit d
    return (a * 4096 + b * 256 + c * 16 + d, cs)
  | _ => none

/-- What follows `\u`. -/
def lexUnicode (cs : List Char) : Option (Char × List Char) := do
  let (n, cs) ← lexHex4 cs
  if n = 0 then none
  else if 0xD800 ≤ n ∧ n < 0xDC00 then
    -- a high surrogate takes the low one that must follow
    match cs with
    | a :: b :: cs =>
      if a = '\\' ∧ b = 'u' then do
        let (m, cs) ← lexHex4 cs
        if 0xDC00 ≤ m ∧ m < 0xE000 then
          return (Char.ofNat (0x10000 + (n - 0xD800) * 0x400 + (m - 0xDC00)), cs)
        else none
      else none
    | _ => none
  else if 0xDC00 ≤ n ∧ n < 0xE000 then none
  else return (Char.ofNat n, cs)

/-- What follows a backslash. -/
def lexEscape : List Char → Option (Char × List Char)
  | [] => none
  | c :: cs =>
    if c = 'u' then lexUnicode cs
    else if c = '"' ∨ c = '\\' ∨ c = '/' then some (c, cs)
    else if c = 'b' then some ('\x08', cs)
    else if c = 'f' then some ('\x0c', cs)
    else if c = 'n' then some ('\n', cs)
    else if c = 'r' then some ('\r', cs)
    else if c = 't' then some ('\t', cs)
    else none

/-- One character of a string literal. -/
def lexChar : List Char → Option (Char × List Char)
  | [] => none
  | c :: cs =>
    if c = '\\' then lexEscape cs
    else if c.toNat < 0x20 then none
    else some (c, cs)

/-- The characters up to the closing quote. -/
def lexStringAux : ℕ → List Char → Option (List Char × List Char)
  | 0, _ => none
  | fuel + 1, cs =>
    if cs.head? = some '"' then some ([], cs.tail)
    else
      match lexChar cs with
      | none => none
      | some (c, cs) => (lexStringAux fuel cs).map fun p => (c :: p.1, p.2)

/-- A string literal after its opening quote. -/
def lexString (cs : List Char) : Option (String × List Char) :=
  (lexStringAux cs.length cs).map fun p => (String.ofList p.1, p.2)

/-- The characters that cannot follow a number or a word. -/
def isWordChar (c : Char) : Bool := c.isAlphanum || c == '_' || decide (127 < c.toNat)

/-- The integer part of a number: no leading zero. -/
def wholeOk (ds : List Char) : Bool := !ds.isEmpty && (ds.head? != some '0' || ds.length == 1)

/-- An optional sign among `signs`. -/
def lexSign (signs : List Char) : List Char → List Char × List Char
  | [] => ([], [])
  | c :: cs => if c ∈ signs then ([c], cs) else ([], c :: cs)

/-- The digits in front. -/
def lexDigits (cs : List Char) : List Char × List Char :=
  (cs.takeWhile Char.isDigit, cs.dropWhile Char.isDigit)

/-- An optional fraction. -/
def lexFraction : List Char → Option (List Char × List Char)
  | [] => some ([], [])
  | c :: cs =>
    if c = '.' then
      if (lexDigits cs).1.isEmpty then none else some (c :: (lexDigits cs).1, (lexDigits cs).2)
    else some ([], c :: cs)

/-- An optional exponent. -/
def lexExponent : List Char → Option (List Char × List Char)
  | [] => some ([], [])
  | c :: cs =>
    if c = 'e' ∨ c = 'E' then
      let (sign, cs) := lexSign ['+', '-'] cs
      if (lexDigits cs).1.isEmpty then none
      else some (c :: sign ++ (lexDigits cs).1, (lexDigits cs).2)
    else some ([], c :: cs)

/-- The number a literal without fraction and exponent spells. -/
def intValue (sign ds : List Char) : Int :=
  if sign.isEmpty then Decimal.value ds else -(Decimal.value ds : Int)

/-- A number. Nothing of a word may follow it. -/
def lexNumber (cs : List Char) : Option (JsonNumber × List Char) := do
  let (sign, cs) := lexSign ['-'] cs
  let (whole, cs) := lexDigits cs
  let (frac, cs) ← lexFraction cs
  let (exp, cs) ← lexExponent cs
  if !wholeOk whole || cs.head?.any isWordChar then none
  else if frac.isEmpty && exp.isEmpty then return (.int (intValue sign whole), cs)
  else return (.float (String.ofList (sign ++ whole ++ frac ++ exp)), cs)

/-- `true`, `false` or `null`. -/
def lexWord (cs : List Char) : Option (Json × List Char) :=
  let word := String.ofList (cs.takeWhile isWordChar)
  let rest := cs.dropWhile isWordChar
  if word = "true" then some (.bool true, rest)
  else if word = "false" then some (.bool false, rest)
  else if word = "null" then some (.null, rest)
  else none

/-! ## Values -/

mutual

def parseValue : ℕ → List Char → Option (Json × List Char)
  | 0, _ => none
  | fuel + 1, cs =>
    match skipWs cs with
    | [] => none
    | c :: cs =>
      if c = '"' then (lexString cs).map fun p => (.str p.1, p.2)
      else if c = '[' then
        if (skipWs cs).head? = some ']' then some (.arr [], (skipWs cs).tail)
        else (parseItems fuel cs).map fun p => (.arr p.1, p.2)
      else if c = '\x7b' then
        if (skipWs cs).head? = some '\x7d' then some (.obj [], (skipWs cs).tail)
        else (parseFields fuel cs).map fun p => (.obj p.1, p.2)
      else if c = '-' ∨ c.isDigit then (lexNumber (c :: cs)).map fun p => (.num p.1, p.2)
      else lexWord (c :: cs)

/-- The elements of an array and its closing bracket. -/
def parseItems : ℕ → List Char → Option (List Json × List Char)
  | 0, _ => none
  | fuel + 1, cs =>
    match parseValue fuel cs with
    | none => none
    | some (x, cs) =>
      if (skipWs cs).head? = some ',' then
        (parseItems fuel (skipWs cs).tail).map fun p => (x :: p.1, p.2)
      else if (skipWs cs).head? = some ']' then some ([x], (skipWs cs).tail)
      else none

/-- The members of an object and its closing brace. -/
def parseFields : ℕ → List Char → Option (List (String × Json) × List Char)
  | 0, _ => none
  | fuel + 1, cs =>
    if (skipWs cs).head? = some '"' then
      match lexString (skipWs cs).tail with
      | none => none
      | some (k, cs) =>
        if (skipWs cs).head? = some ':' then
          match parseValue fuel (skipWs cs).tail with
          | none => none
          | some (v, cs) =>
            if (skipWs cs).head? = some ',' then
              (parseFields fuel (skipWs cs).tail).map fun p => ((k, v) :: p.1, p.2)
            else if (skipWs cs).head? = some '\x7d' then some ([(k, v)], (skipWs cs).tail)
            else none
        else none
    else none

end

/-- `text::jsonb`; `none` where the cast raises. -/
def jsonbIn (text : String) : Option Json :=
  match parseValue (2 * text.length + 2) text.toList with
  | none => none
  | some (v, rest) => if skipWs rest = [] then some v else none

example : (jsonbIn " [1.5e3, -20, \"a\\u0041\\t\", null]").map Json.render =
    some "[1.5e3,-20,\"aA\\t\",null]" := by decide +kernel

/-! ## Strings -/

/-- The short escapes of control characters. -/
def shortEscape (n : ℕ) : Option Char :=
  if n = 8 then some 'b' else if n = 9 then some 't' else if n = 10 then some 'n'
  else if n = 12 then some 'f' else if n = 13 then some 'r' else none

theorem escapeChar_control : ∀ n < 0x20, Json.escapeChar (Char.ofNat n) =
    match shortEscape n with
    | some e => ['\\', e]
    | none => '\\' :: 'u' :: '0' :: '0' :: Json.hexPair n := by
  decide

theorem lexEscape_short : ∀ n < 0x20, ∀ e ∈ shortEscape n, e ≠ 'u' ∧ n ≠ 0 ∧
    ∀ rest, lexEscape (e :: rest) = some (Char.ofNat n, rest) := by
  intro n _ e he
  unfold shortEscape at he
  split_ifs at he <;> simp at he <;> subst he <;> subst n <;>
    exact ⟨by decide, by decide, fun rest => rfl⟩

theorem map_hexDigit_hexPair : ∀ n < 0x20,
    (Json.hexPair n).map hexDigit = [some (n / 16), some (n % 16)] := by
  decide

theorem lexHex4_hexPair {n : ℕ} (hn : n < 0x20) (rest : List Char) :
    lexHex4 ('0' :: '0' :: (Json.hexPair n ++ rest)) = some (n, rest) := by
  have hmap := map_hexDigit_hexPair n hn
  have hzero : hexDigit '0' = some 0 := rfl
  rcases hpair : Json.hexPair n with _ | ⟨x, _ | ⟨y, _ | ⟨z, l⟩⟩⟩ <;> rw [hpair] at hmap <;>
    simp at hmap
  simp only [List.cons_append, List.nil_append, lexHex4, hzero, hmap.1, hmap.2, Option.bind_eq_bind,
    Option.bind_some, Option.pure_def, Option.some.injEq, Prod.mk.injEq, and_true]
  omega

/-- The control characters `serde_json` escapes read back, but for U+0000. -/
theorem lexChar_escapeControl {n : ℕ} (hn : n < 0x20) (rest : List Char) :
    lexChar (Json.escapeChar (Char.ofNat n) ++ rest) =
      if n = 0 then none else some (Char.ofNat n, rest) := by
  rw [escapeChar_control n hn]
  cases hshort : shortEscape n with
  | some e =>
    rcases lexEscape_short n hn e hshort with ⟨-, hne, hread⟩
    rw [if_neg hne, ← hread rest]
    rfl
  | none =>
    have hhigh : ¬ (0xD800 ≤ n ∧ n < 0xDC00) := by omega
    have hlow : ¬ (0xDC00 ≤ n ∧ n < 0xE000) := by omega
    have hlex : lexChar ('\\' :: 'u' :: '0' :: '0' :: Json.hexPair n ++ rest) =
        lexUnicode ('0' :: '0' :: (Json.hexPair n ++ rest)) := rfl
    rw [hlex]
    unfold lexUnicode
    rw [lexHex4_hexPair hn]
    simp only [Option.bind_eq_bind, Option.bind_some, if_neg hhigh, if_neg hlow, Option.pure_def]

theorem escapeChar_of_plain {c : Char} (h : 0x20 ≤ c.toNat) (hq : c.toNat ≠ 0x22)
    (hb : c.toNat ≠ 0x5C) : Json.escapeChar c = [c] := by
  unfold Json.escapeChar
  split <;> first | omega | rfl | skip
  rw [if_neg (by omega)]

/-- **One character reads back**, unless it is U+0000. -/
theorem lexChar_escapeChar (c : Char) (rest : List Char) :
    lexChar (Json.escapeChar c ++ rest) = if c = '\x00' then none else some (c, rest) := by
  by_cases hctl : c.toNat < 0x20
  · have h := lexChar_escapeControl hctl rest
    have hzero : c.toNat = 0 ↔ c = '\x00' := by
      constructor
      · intro h0
        exact Char.toNat_inj.1 h0
      · rintro rfl
        rfl
    rwa [Char.ofNat_toNat, if_congr hzero rfl rfl] at h
  · have hne : c ≠ '\x00' := by
      rintro rfl
      exact hctl (by decide)
    rw [if_neg hne]
    by_cases hq : c.toNat = 0x22
    · have hc : c = '"' := Char.toNat_inj.1 hq
      subst hc
      rfl
    · by_cases hb : c.toNat = 0x5C
      · have hc : c = '\\' := Char.toNat_inj.1 hb
        subst hc
        rfl
      · rw [escapeChar_of_plain (by omega) hq hb]
        have hslash : c ≠ '\\' := by
          rintro rfl
          exact hb rfl
        simp [lexChar, hslash, hctl]

/-- No escaped character starts with a quote. -/
theorem escapeChar_eq_cons (c : Char) : ∃ d ds, Json.escapeChar c = d :: ds ∧ d ≠ '"' := by
  by_cases hctl : c.toNat < 0x20
  · have hall : ∀ n < 0x20, (Json.escapeChar (Char.ofNat n)).head? = some '\\' := by decide
    have h := hall c.toNat hctl
    rw [Char.ofNat_toNat] at h
    rcases List.head?_eq_some_iff.1 h with ⟨ds, hds⟩
    exact ⟨_, ds, hds, by decide⟩
  · by_cases hq : c.toNat = 0x22
    · have hc : c = '"' := Char.toNat_inj.1 hq
      subst hc
      exact ⟨_, _, rfl, by decide⟩
    · by_cases hb : c.toNat = 0x5C
      · have hc : c = '\\' := Char.toNat_inj.1 hb
        subst hc
        exact ⟨_, _, rfl, by decide⟩
      · refine ⟨c, [], escapeChar_of_plain (by omega) hq hb, ?_⟩
        rintro rfl
        exact hq rfl

theorem lexStringAux_escaped (s rest : List Char) {fuel : ℕ} (hfuel : s.length < fuel) :
    lexStringAux fuel (s.flatMap Json.escapeChar ++ '"' :: rest) =
      if '\x00' ∈ s then none else some (s, rest) := by
  induction s generalizing fuel with
  | nil =>
    cases fuel with
    | zero => simp at hfuel
    | succ fuel => simp [lexStringAux]
  | cons c s ih =>
    cases fuel with
    | zero => simp at hfuel
    | succ fuel =>
      have hih := ih (by simpa using hfuel)
      have hhead : (Json.escapeChar c ++ (s.flatMap Json.escapeChar ++ '"' :: rest)).head? ≠
          some '"' := by
        rcases escapeChar_eq_cons c with ⟨d, ds, hds, hd⟩
        simpa [hds] using hd
      rw [List.flatMap_cons, List.append_assoc, lexStringAux, if_neg hhead, lexChar_escapeChar]
      by_cases hc : c = '\x00'
      · simp [hc]
      · rw [if_neg hc]
        simp only [hih, List.mem_cons, Ne.symm hc, false_or]
        split_ifs <;> rfl

/-- A string literal that was written reads back, unless it holds U+0000. -/
theorem lexString_escaped (s : String) (rest : List Char) :
    lexString (s.toList.flatMap Json.escapeChar ++ '"' :: rest) =
      if '\x00' ∈ s.toList then none else some (s, rest) := by
  have hlen : ∀ cs : List Char, cs.length ≤ (cs.flatMap Json.escapeChar).length := by
    intro cs
    induction cs with
    | nil => exact le_rfl
    | cons c cs ih =>
      rcases escapeChar_eq_cons c with ⟨d, ds, hds, -⟩
      simp only [List.flatMap_cons, hds, List.length_append, List.length_cons]
      omega
  have hfuel : s.toList.length <
      (s.toList.flatMap Json.escapeChar ++ '"' :: rest).length := by
    have h := hlen s.toList
    simp only [List.length_append, List.length_cons]
    omega
  unfold lexString
  rw [lexStringAux_escaped s.toList rest hfuel]
  split_ifs <;> simp

/-! ## Numbers -/

/-- What follows a value inside a text that was written: nothing, or a separator. -/
def Ends (rest : List Char) : Prop := ∀ c, rest.head? = some c → c = ',' ∨ c = ']' ∨ c = '\x7d'

theorem Ends.head_eq_false {rest : List Char} (h : Ends rest) {p : Char → Bool}
    (hcomma : p ',' = false) (hbracket : p ']' = false) (hbrace : p '\x7d' = false) {c : Char}
    (hc : rest.head? = some c) : p c = false := by
  rcases h c hc with rfl | rfl | rfl
  · exact hcomma
  · exact hbracket
  · exact hbrace

theorem takeWhile_append_stop {α : Type*} {p : α → Bool} {rest : List α}
    (h : ∀ c, rest.head? = some c → p c = false) (cs : List α) :
    (cs ++ rest).takeWhile p = cs.takeWhile p := by
  induction cs with
  | nil =>
    cases rest with
    | nil => rfl
    | cons c rest => simp [h c rfl]
  | cons c cs ih =>
    rw [List.cons_append, List.takeWhile_cons, List.takeWhile_cons, ih]

theorem dropWhile_append_stop {α : Type*} {p : α → Bool} {rest : List α}
    (h : ∀ c, rest.head? = some c → p c = false) (cs : List α) :
    (cs ++ rest).dropWhile p = cs.dropWhile p ++ rest := by
  induction cs with
  | nil =>
    cases rest with
    | nil => rfl
    | cons c rest => simp [h c rfl]
  | cons c cs ih =>
    rw [List.cons_append, List.dropWhile_cons, List.dropWhile_cons, ih]
    split_ifs <;> rfl

section Append

variable {rest : List Char}

theorem lexSign_append {signs : List Char} (h : ∀ c, rest.head? = some c → c ∉ signs)
    (cs : List Char) :
    lexSign signs (cs ++ rest) = ((lexSign signs cs).1, (lexSign signs cs).2 ++ rest) := by
  cases cs with
  | nil =>
    cases rest with
    | nil => rfl
    | cons c rest => simp [lexSign, h c rfl]
  | cons c cs =>
    simp only [List.cons_append, lexSign]
    split_ifs <;> rfl

theorem lexDigits_append (h : Ends rest) (cs : List Char) :
    lexDigits (cs ++ rest) = ((lexDigits cs).1, (lexDigits cs).2 ++ rest) := by
  have hstop : ∀ c, rest.head? = some c → c.isDigit = false :=
    fun c hc => h.head_eq_false (p := Char.isDigit) rfl rfl rfl hc
  unfold lexDigits
  rw [takeWhile_append_stop hstop, dropWhile_append_stop hstop]

theorem lexFraction_append (h : Ends rest) (cs : List Char) :
    lexFraction (cs ++ rest) = (lexFraction cs).map fun p => (p.1, p.2 ++ rest) := by
  cases cs with
  | nil =>
    cases rest with
    | nil => rfl
    | cons c rest =>
      have hc : c ≠ '.' := by
        rcases h c rfl with rfl | rfl | rfl <;> decide
      simp [lexFraction, hc]
  | cons c cs =>
    simp only [List.cons_append, lexFraction, lexDigits_append h]
    split_ifs <;> rfl

theorem lexExponent_append (h : Ends rest) (cs : List Char) :
    lexExponent (cs ++ rest) = (lexExponent cs).map fun p => (p.1, p.2 ++ rest) := by
  have hsign : ∀ c, rest.head? = some c → c ∉ ['+', '-'] := by
    intro c hc
    rcases h c hc with rfl | rfl | rfl <;> decide
  cases cs with
  | nil =>
    cases rest with
    | nil => rfl
    | cons c rest =>
      have hc : ¬ (c = 'e' ∨ c = 'E') := by
        rcases h c rfl with rfl | rfl | rfl <;> decide
      simp [lexExponent, hc]
  | cons c cs =>
    simp only [List.cons_append, lexExponent, lexSign_append hsign, lexDigits_append h]
    split_ifs <;> rfl

/-- A number ends where its text ends. -/
theorem lexNumber_append (h : Ends rest) (cs : List Char) :
    lexNumber (cs ++ rest) = (lexNumber cs).map fun p => (p.1, p.2 ++ rest) := by
  have hsign : ∀ c, rest.head? = some c → c ∉ ['-'] := by
    intro c hc
    rcases h c hc with rfl | rfl | rfl <;> decide
  have hword : ∀ tail : List Char, (tail ++ rest).head?.any isWordChar = tail.head?.any isWordChar := by
    intro tail
    cases tail with
    | cons c tail => rfl
    | nil =>
      cases hc : rest.head? with
      | none => simp [hc]
      | some c =>
        have hno := h.head_eq_false (p := isWordChar) (by decide) (by decide) (by decide) hc
        simp [hc, hno]
  unfold lexNumber
  rw [lexSign_append hsign]
  simp only [lexDigits_append h, lexFraction_append h]
  cases lexFraction (lexDigits (lexSign ['-'] cs).2).2 with
  | none => rfl
  | some frac =>
    simp only [Option.map_some, Option.bind_eq_bind, Option.bind_some, lexExponent_append h]
    cases lexExponent frac.2 with
    | none => rfl
    | some exp =>
      simp only [Option.map_some, Option.bind_some, hword]
      split_ifs <;> rfl

end Append

/-- The digits of a number have no leading zero. -/
theorem wholeOk_toDigits (n : ℕ) : wholeOk (Nat.toDigits 10 n) = true := by
  have hhead : ∀ m : ℕ, 0 < m → (Nat.toDigits 10 m).head? ≠ some '0' := by
    intro m
    induction m using Nat.strong_induction_on with
    | _ m ih =>
      intro hm
      by_cases hlt : m < 10
      · rw [Nat.toDigits_of_lt_base hlt]
        interval_cases m <;> decide
      · rw [Nat.toDigits_of_base_le (by decide) (by omega), List.head?_append_of_ne_nil _
          Nat.toDigits_ne_nil]
        exact ih (m / 10) (by omega) (by omega)
  have hne : Nat.toDigits 10 n ≠ [] := Nat.toDigits_ne_nil
  unfold wholeOk
  rcases Nat.eq_zero_or_pos n with rfl | hn
  · rfl
  · have h := hhead n hn
    simp [hne, h]

theorem lexDigits_toDigits (n : ℕ) : lexDigits (Nat.toDigits 10 n) = (Nat.toDigits 10 n, []) := by
  have hdigits : ∀ c ∈ Nat.toDigits 10 n, c.isDigit = true :=
    fun c hc => Nat.isDigit_of_mem_toDigits (by decide) le_rfl hc
  unfold lexDigits
  rw [List.takeWhile_eq_self_iff.2 hdigits, List.dropWhile_eq_nil_iff.2 hdigits]

theorem intValue_toDigits (n : ℕ) : Decimal.value (Nat.toDigits 10 n) = n :=
  Nat.ofDigitChars_ten_toDigits

/-- The digits of a number, behind an optional sign, read as an integer. -/
theorem lexNumber_digits {sign cs : List Char} {n : ℕ}
    (h : lexSign ['-'] cs = (sign, Nat.toDigits 10 n)) :
    lexNumber cs = some (.int (if sign.isEmpty then n else -(n : Int)), []) := by
  unfold lexNumber
  simp only [h, lexDigits_toDigits, wholeOk_toDigits, lexFraction, lexExponent, intValue,
    intValue_toDigits, Option.bind_eq_bind, Option.bind_some, List.head?_nil, Option.any_none,
    List.isEmpty_nil]
  rfl

/-- An integer reads back. -/
theorem lexNumber_int (n : Int) : lexNumber (toString n).toList = some (.int n, []) := by
  cases n with
  | ofNat m =>
    have htext : (toString (Int.ofNat m)).toList = Nat.toDigits 10 m := Nat.toList_repr
    have hsign : lexSign ['-'] (Nat.toDigits 10 m) = ([], Nat.toDigits 10 m) := by
      cases hds : Nat.toDigits 10 m with
      | nil => rfl
      | cons c cs =>
        have hc : c.isDigit = true :=
          Nat.isDigit_of_mem_toDigits (b := 10) (n := m) (by decide) le_rfl (by simp [hds])
        have hne : c ≠ '-' := by
          rintro rfl
          revert hc
          decide
        simp [lexSign, hne]
    rw [htext, lexNumber_digits hsign]
    rfl
  | negSucc m =>
    have htext : (toString (Int.negSucc m)).toList = '-' :: Nat.toDigits 10 (m + 1) := by
      have hrepr : toString (Int.negSucc m) = "-" ++ (m + 1).repr := rfl
      rw [hrepr, String.toList_append, Nat.toList_repr]
      rfl
    have hsign : lexSign ['-'] ('-' :: Nat.toDigits 10 (m + 1)) =
        (['-'], Nat.toDigits 10 (m + 1)) := by
      simp [lexSign]
    rw [htext, lexNumber_digits hsign]
    rfl

/-! ## Round trip -/

end Jsonb

namespace Json

mutual

/-- What a `serde_json::Value` can be: a number that is no integer is written as a number with a
fraction or an exponent, and no key of an object is repeated. -/
def written : Json → Bool
  | num (.float text) => decide (Jsonb.lexNumber text.toList = some (.float text, []))
  | arr xs => writtenItems xs
  | obj fields => decide (fields.map Prod.fst).Nodup && writtenFields fields
  | _ => true

def writtenItems : List Json → Bool
  | [] => true
  | x :: xs => x.written && writtenItems xs

def writtenFields : List (String × Json) → Bool
  | [] => true
  | (_, v) :: fields => v.written && writtenFields fields

end

end Json

namespace Jsonb

theorem lexNumber_renderNumber {n : JsonNumber} (h : (Json.num n).written = true) :
    lexNumber (Json.renderNumber n).toList = some (n, []) := by
  cases n with
  | int n => exact lexNumber_int n
  | float text => simpa [Json.written, Json.renderNumber] using h

theorem head_of_lexNumber {cs : List Char} {r : JsonNumber × List Char}
    (h : lexNumber cs = some r) : ∃ c ds, cs = c :: ds ∧ (c = '-' ∨ c.isDigit = true) := by
  cases cs with
  | nil => simp [lexNumber, lexSign, lexDigits, lexFraction, lexExponent, wholeOk] at h
  | cons c ds =>
    refine ⟨c, ds, rfl, ?_⟩
    by_contra hno
    rw [not_or] at hno
    have hsign : lexSign ['-'] (c :: ds) = ([], c :: ds) := by simp [lexSign, hno.1]
    have hdigits : (lexDigits (c :: ds)).1 = [] := by simp [lexDigits, hno.2]
    unfold lexNumber at h
    simp only [hsign, hdigits, wholeOk, List.isEmpty_nil, Bool.not_true, Bool.false_and,
      Bool.not_false, Bool.true_or, if_true, Option.bind_eq_bind, Option.bind_eq_some_iff] at h
    rcases h with ⟨_, -, _, -, h⟩
    cases h

/-- A character a value can start with. -/
def Starts (c : Char) : Prop := isWs c = false ∧ c ≠ ']' ∧ c ≠ '\x7d'

theorem starts_of_number {c : Char} (h : c = '-' ∨ c.isDigit = true) :
    Starts c ∧ c ≠ '"' ∧ c ≠ '[' ∧ c ≠ '\x7b' := by
  have hno : ∀ d : Char, d ≠ '-' → d.isDigit = false → c ≠ d := by
    rintro d hd hdigit rfl
    rcases h with rfl | h
    · exact hd rfl
    · rw [hdigit] at h
      cases h
  have hws : isWs c = false := by
    unfold isWs
    simp only [Bool.or_eq_false_iff, beq_eq_false_iff_ne]
    exact ⟨⟨⟨hno _ (by decide) rfl, hno _ (by decide) rfl⟩, hno _ (by decide) rfl⟩,
      hno _ (by decide) rfl⟩
  exact ⟨⟨hws, hno _ (by decide) rfl, hno _ (by decide) rfl⟩, hno _ (by decide) rfl,
    hno _ (by decide) rfl, hno _ (by decide) rfl⟩

theorem skipWs_of_starts {c : Char} (h : Starts c) (cs : List Char) :
    skipWs (c :: cs) = c :: cs := by
  simp [skipWs, h.1]

theorem render_str_toList (s : String) :
    (Json.renderString s).toList = '"' :: (s.toList.flatMap Json.escapeChar ++ ['"']) := by
  simp [Json.renderString, String.toList_append]

theorem render_arr_toList (xs : List Json) :
    (Json.arr xs).render.toList = '[' :: ((Json.renderItems xs).toList ++ [']']) := by
  simp [Json.render, String.toList_append]

theorem render_obj_toList (fields : List (String × Json)) :
    (Json.obj fields).render.toList = '\x7b' :: ((Json.renderFields fields).toList ++ ['\x7d']) := by
  simp [Json.render, String.toList_append]

theorem render_starts {j : Json} (h : j.written = true) :
    ∃ c cs, j.render.toList = c :: cs ∧ Starts c := by
  cases j with
  | null => exact ⟨'n', _, rfl, by decide, by decide, by decide⟩
  | bool b =>
    cases b
    · exact ⟨'f', _, rfl, by decide, by decide, by decide⟩
    · exact ⟨'t', _, rfl, by decide, by decide, by decide⟩
  | num n =>
    rcases head_of_lexNumber (lexNumber_renderNumber h) with ⟨c, cs, htext, hc⟩
    exact ⟨c, cs, by rw [Json.render, htext], (starts_of_number hc).1⟩
  | str s =>
    exact ⟨'"', _, by rw [Json.render, render_str_toList], by decide, by decide, by decide⟩
  | arr xs =>
    refine ⟨'[', (Json.renderItems xs).toList ++ [']'], ?_, by decide, by decide, by decide⟩
    exact render_arr_toList xs
  | obj fields =>
    refine ⟨'\x7b', (Json.renderFields fields).toList ++ ['\x7d'], ?_, by decide, by decide,
      by decide⟩
    exact render_obj_toList fields

/-- A word that was written reads back. -/
theorem lexWord_append {word : String} {v : Json} {rest : List Char} (hrest : Ends rest)
    (hword : word.toList.all isWordChar = true) (hv : lexWord word.toList = some (v, [])) :
    lexWord (word.toList ++ rest) = some (v, rest) := by
  have hstop : ∀ c, rest.head? = some c → isWordChar c = false :=
    fun c hc => hrest.head_eq_false (p := isWordChar) (by decide) (by decide) (by decide) hc
  have hall := List.all_eq_true.1 hword
  have htake : word.toList.takeWhile isWordChar = word.toList := List.takeWhile_eq_self_iff.2 hall
  have hdrop : word.toList.dropWhile isWordChar = [] := List.dropWhile_eq_nil_iff.2 hall
  unfold lexWord at hv ⊢
  rw [takeWhile_append_stop hstop, dropWhile_append_stop hstop]
  rw [htake, hdrop] at hv
  rw [htake, hdrop]
  simp only [List.nil_append] at hv ⊢
  split_ifs at hv ⊢ <;> simp_all

theorem ends_cons_comma (cs : List Char) : Ends (',' :: cs) := fun c hc => .inl (by simpa using hc.symm)
theorem ends_cons_bracket (cs : List Char) : Ends (']' :: cs) :=
  fun c hc => .inr (.inl (by simpa using hc.symm))
theorem ends_cons_brace (cs : List Char) : Ends ('\x7d' :: cs) :=
  fun c hc => .inr (.inr (by simpa using hc.symm))
theorem ends_nil : Ends [] := fun c hc => by simp at hc

theorem renderItems_starts {x : Json} {xs : List Json} (h : x.written = true) :
    ∃ c cs, (Json.renderItems (x :: xs)).toList = c :: cs ∧ Starts c := by
  rcases render_starts h with ⟨c, cs, htext, hc⟩
  cases xs with
  | nil => exact ⟨c, cs, by rw [Json.renderItems, htext], hc⟩
  | cons y xs =>
    refine ⟨c, cs ++ (",".toList ++ (Json.renderItems (y :: xs)).toList), ?_, hc⟩
    rw [Json.renderItems, String.toList_append, String.toList_append, htext]
    simp

theorem renderFields_starts (kv : String × Json) (fields : List (String × Json)) :
    ∃ cs, (Json.renderFields (kv :: fields)).toList = '"' :: cs := by
  rcases kv with ⟨k, v⟩
  cases fields with
  | nil => simp [Json.renderFields, String.toList_append, render_str_toList]
  | cons kv fields => simp [Json.renderFields, String.toList_append, render_str_toList]

theorem parseValue_cons {c : Char} (h : Starts c) (fuel : ℕ) (cs : List Char) :
    parseValue (fuel + 1) (c :: cs) =
      if c = '"' then (lexString cs).map fun p => (.str p.1, p.2)
      else if c = '[' then
        if (skipWs cs).head? = some ']' then some (.arr [], (skipWs cs).tail)
        else (parseItems fuel cs).map fun p => (.arr p.1, p.2)
      else if c = '\x7b' then
        if (skipWs cs).head? = some '\x7d' then some (.obj [], (skipWs cs).tail)
        else (parseFields fuel cs).map fun p => (.obj p.1, p.2)
      else if c = '-' ∨ c.isDigit then (lexNumber (c :: cs)).map fun p => (.num p.1, p.2)
      else lexWord (c :: cs) := by
  rw [parseValue, skipWs_of_starts h]

/-- A word is parsed as one. -/
theorem parseValue_word {word : String} {v : Json} {rest : List Char} {c : Char} {cs : List Char}
    (hrest : Ends rest) (hcs : word.toList = c :: cs) (hc : c ∈ ['n', 't', 'f'])
    (hword : word.toList.all isWordChar = true) (hv : lexWord word.toList = some (v, []))
    (fuel : ℕ) : parseValue (fuel + 1) (word.toList ++ rest) = some (v, rest) := by
  have hread := lexWord_append hrest hword hv
  rw [hcs, List.cons_append] at hread ⊢
  rw [← hread]
  simp only [List.mem_cons, List.not_mem_nil, or_false] at hc
  rcases hc with rfl | rfl | rfl <;>
    exact parseValue_cons ⟨by decide, by decide, by decide⟩ fuel (cs ++ rest)

theorem parseValue_string (s : String) (rest : List Char) (fuel : ℕ) :
    parseValue (fuel + 1) ((Json.renderString s).toList ++ rest) =
      if (Json.str s).nulFree then some (.str s, rest) else none := by
  have hstarts : Starts '"' := ⟨by decide, by decide, by decide⟩
  rw [render_str_toList, List.cons_append, parseValue_cons hstarts, if_pos rfl, List.append_assoc,
    List.singleton_append, lexString_escaped]
  by_cases hnul : '\x00' ∈ s.toList <;> simp [Json.nulFree, hnul]

theorem parseValue_number {n : JsonNumber} (h : (Json.num n).written = true) {rest : List Char}
    (hrest : Ends rest) (fuel : ℕ) :
    parseValue (fuel + 1) ((Json.renderNumber n).toList ++ rest) = some (.num n, rest) := by
  have hread := lexNumber_renderNumber h
  rcases head_of_lexNumber hread with ⟨c, cs, hcs, hc⟩
  rcases starts_of_number hc with ⟨hstarts, hquote, hbracket, hbrace⟩
  have hnum : lexNumber ((Json.renderNumber n).toList ++ rest) = some (n, rest) := by
    rw [lexNumber_append hrest, hread]
    rfl
  rw [hcs, List.cons_append] at hnum ⊢
  rw [parseValue_cons hstarts, if_neg hquote, if_neg hbracket, if_neg hbrace, if_pos hc, hnum]
  rfl

/-- An array is parsed as its elements. -/
theorem parseValue_array {x : Json} {xs : List Json} (h : x.written = true) {rest : List Char}
    {fuel : ℕ}
    (hitems : parseItems fuel ((Json.renderItems (x :: xs)).toList ++ ']' :: rest) =
      if Json.nulFreeItems (x :: xs) then some (x :: xs, rest) else none) :
    parseValue (fuel + 1) ((Json.arr (x :: xs)).render.toList ++ rest) =
      if (Json.arr (x :: xs)).nulFree then some (.arr (x :: xs), rest) else none := by
  have hstarts : Starts '[' := ⟨by decide, by decide, by decide⟩
  rcases renderItems_starts h with ⟨c, cs, hcs, hc⟩
  rw [render_arr_toList, List.cons_append, List.append_assoc, List.singleton_append,
    parseValue_cons hstarts, if_neg (by decide), if_pos rfl, hitems]
  have hclose : (skipWs ((Json.renderItems (x :: xs)).toList ++ ']' :: rest)).head? ≠ some ']' := by
    rw [hcs, List.cons_append, skipWs_of_starts hc]
    simpa using hc.2.1
  rw [if_neg hclose, Json.nulFree]
  cases Json.nulFreeItems (x :: xs) <;> rfl

/-- An object is parsed as its members. -/
theorem parseValue_object {kv : String × Json} {fields : List (String × Json)} {rest : List Char}
    {fuel : ℕ}
    (hfields : parseFields fuel ((Json.renderFields (kv :: fields)).toList ++ '\x7d' :: rest) =
      if Json.nulFreeFields (kv :: fields) then some (kv :: fields, rest) else none) :
    parseValue (fuel + 1) ((Json.obj (kv :: fields)).render.toList ++ rest) =
      if (Json.obj (kv :: fields)).nulFree then some (.obj (kv :: fields), rest) else none := by
  have hstarts : Starts '\x7b' := ⟨by decide, by decide, by decide⟩
  rcases renderFields_starts kv fields with ⟨cs, hcs⟩
  rw [render_obj_toList, List.cons_append, List.append_assoc, List.singleton_append,
    parseValue_cons hstarts, if_neg (by decide), if_neg (by decide), if_pos rfl, hfields]
  have hclose : (skipWs ((Json.renderFields (kv :: fields)).toList ++ '\x7d' :: rest)).head? ≠
      some '\x7d' := by
    rw [hcs, List.cons_append, skipWs_of_starts ⟨by decide, by decide, by decide⟩]
    simp
  rw [if_neg hclose, Json.nulFree]
  cases Json.nulFreeFields (kv :: fields) <;> rfl

/-- An element and the separator after it. -/
theorem parseItems_of_value {x : Json} {cs rest : List Char} {fuel : ℕ} {ok : Bool}
    (hx : parseValue fuel cs = if ok then some (x, rest) else none) :
    parseItems (fuel + 1) cs =
      if ok then
        if (skipWs rest).head? = some ',' then
          (parseItems fuel (skipWs rest).tail).map fun p => (x :: p.1, p.2)
        else if (skipWs rest).head? = some ']' then some ([x], (skipWs rest).tail)
        else none
      else none := by
  rw [parseItems, hx]
  cases ok <;> rfl

/-- A member and the separator after it. -/
theorem parseFields_of_value {k : String} {v : Json} {cs rest : List Char} {fuel : ℕ} {ok : Bool}
    (hv : parseValue fuel cs = if ok then some (v, rest) else none) :
    parseFields (fuel + 1) ((Json.renderString k).toList ++ ':' :: cs) =
      if !k.toList.contains '\x00' && ok then
        if (skipWs rest).head? = some ',' then
          (parseFields fuel (skipWs rest).tail).map fun p => ((k, v) :: p.1, p.2)
        else if (skipWs rest).head? = some '\x7d' then some ([(k, v)], (skipWs rest).tail)
        else none
      else none := by
  -- the key is read first
  have hquote : skipWs ((Json.renderString k).toList ++ ':' :: cs) =
      '"' :: (k.toList.flatMap Json.escapeChar ++ '"' :: ':' :: cs) := by
    rw [render_str_toList, List.cons_append, skipWs_of_starts ⟨by decide, by decide, by decide⟩]
    simp
  have hcolon : skipWs (':' :: cs) = ':' :: cs :=
    skipWs_of_starts ⟨by decide, by decide, by decide⟩ cs
  rw [parseFields, hquote]
  simp only [List.head?_cons, if_true, List.tail_cons, lexString_escaped]
  by_cases hnul : '\x00' ∈ k.toList
  · simp [hnul]
  · simp only [hnul, if_false, hcolon, List.head?_cons, if_true, List.tail_cons, hv]
    cases ok <;> simp [hnul]

/-- With this fuel a written value is read back. -/
def ReadsValue (fuel : ℕ) : Prop :=
  ∀ (j : Json) (rest : List Char), j.written = true → 2 * j.render.toList.length ≤ fuel →
    Ends rest → parseValue fuel (j.render.toList ++ rest) =
      if j.nulFree then some (j, rest) else none

/-- With this fuel the elements of an array are. -/
def ReadsItems (fuel : ℕ) : Prop :=
  ∀ (x : Json) (xs : List Json) (rest : List Char), Json.writtenItems (x :: xs) = true →
    2 * (Json.renderItems (x :: xs)).toList.length + 1 ≤ fuel →
    parseItems fuel ((Json.renderItems (x :: xs)).toList ++ ']' :: rest) =
      if Json.nulFreeItems (x :: xs) then some (x :: xs, rest) else none

/-- With this fuel the members of an object are. -/
def ReadsFields (fuel : ℕ) : Prop :=
  ∀ (kv : String × Json) (fields : List (String × Json)) (rest : List Char),
    Json.writtenFields (kv :: fields) = true →
    2 * (Json.renderFields (kv :: fields)).toList.length + 1 ≤ fuel →
    parseFields fuel ((Json.renderFields (kv :: fields)).toList ++ '\x7d' :: rest) =
      if Json.nulFreeFields (kv :: fields) then some (kv :: fields, rest) else none

theorem readsValue_succ {fuel : ℕ} (hitems : ReadsItems fuel) (hfields : ReadsFields fuel) :
    ReadsValue (fuel + 1) := by
  intro j rest h hfuel hrest
  cases j with
  | null => exact parseValue_word hrest rfl (by decide) (by decide) rfl fuel
  | bool b =>
    cases b with
    | true => exact parseValue_word hrest rfl (by decide) (by decide) rfl fuel
    | false => exact parseValue_word hrest rfl (by decide) (by decide) rfl fuel
  | num n => exact parseValue_number h hrest fuel
  | str s => exact parseValue_string s rest fuel
  | arr xs =>
    cases xs with
    | nil =>
      rw [render_arr_toList, List.cons_append, parseValue_cons ⟨by decide, by decide, by decide⟩]
      rfl
    | cons x xs =>
      rw [Json.written] at h
      rw [render_arr_toList, List.length_cons, List.length_append, List.length_singleton] at hfuel
      have hx := h
      rw [Json.writtenItems, Bool.and_eq_true] at hx
      exact parseValue_array hx.1 (hitems x xs rest h (by omega))
  | obj fields =>
    cases fields with
    | nil =>
      rw [render_obj_toList, List.cons_append, parseValue_cons ⟨by decide, by decide, by decide⟩]
      rfl
    | cons kv fields =>
      rw [Json.written, Bool.and_eq_true] at h
      rw [render_obj_toList, List.length_cons, List.length_append, List.length_singleton] at hfuel
      exact parseValue_object (hfields kv fields rest h.2 (by omega))

theorem readsItems_succ {fuel : ℕ} (hvalue : ReadsValue fuel) (hitems : ReadsItems fuel) :
    ReadsItems (fuel + 1) := by
  intro x xs rest h hfuel
  rw [Json.writtenItems, Bool.and_eq_true] at h
  cases xs with
  | nil =>
    rw [Json.renderItems] at hfuel ⊢
    have hclose : skipWs (']' :: rest) = ']' :: rest := rfl
    rw [parseItems_of_value (hvalue x _ h.1 (by omega) (ends_cons_bracket rest)), hclose,
      Json.nulFreeItems, Json.nulFreeItems, Bool.and_true]
    rfl
  | cons y xs =>
    rw [Json.renderItems, String.toList_append, String.toList_append] at hfuel ⊢
    simp only [List.length_append] at hfuel
    have hcomma : ",".toList.length = 1 := rfl
    have hrest := hitems y xs rest h.2 (by omega)
    have hshape : x.render.toList ++ ",".toList ++ (Json.renderItems (y :: xs)).toList ++
        ']' :: rest =
        x.render.toList ++ ',' :: ((Json.renderItems (y :: xs)).toList ++ ']' :: rest) := by
      simp
    have hsep : ∀ cs, skipWs (',' :: cs) = ',' :: cs := fun _ => rfl
    have hsplit : Json.nulFreeItems (x :: y :: xs) =
        (x.nulFree && Json.nulFreeItems (y :: xs)) := by
      rw [Json.nulFreeItems]
    rw [hshape, parseItems_of_value (hvalue x _ h.1 (by omega) (ends_cons_comma _)), hsep,
      List.head?_cons, if_pos rfl, List.tail_cons, hrest, hsplit]
    cases x.nulFree <;> cases Json.nulFreeItems (y :: xs) <;> rfl

theorem readsFields_succ {fuel : ℕ} (hvalue : ReadsValue fuel) (hfields : ReadsFields fuel) :
    ReadsFields (fuel + 1) := by
  rintro ⟨k, v⟩ fields rest h hfuel
  rw [Json.writtenFields, Bool.and_eq_true] at h
  cases fields with
  | nil =>
    rw [Json.renderFields, String.toList_append, String.toList_append] at hfuel ⊢
    simp only [List.length_append] at hfuel
    have hshape : (Json.renderString k).toList ++ ":".toList ++ v.render.toList ++ '\x7d' :: rest =
        (Json.renderString k).toList ++ ':' :: (v.render.toList ++ '\x7d' :: rest) := by
      simp
    have hclose : skipWs ('\x7d' :: rest) = '\x7d' :: rest := rfl
    rw [hshape, parseFields_of_value (hvalue v _ h.1 (by omega) (ends_cons_brace rest)),
      hclose, Json.nulFreeFields, Json.nulFreeFields, Bool.and_true]
    rfl
  | cons kv fields =>
    rw [Json.renderFields, String.toList_append, String.toList_append, String.toList_append,
      String.toList_append] at hfuel ⊢
    simp only [List.length_append] at hfuel
    have hcomma : ",".toList.length = 1 := rfl
    have hrest := hfields kv fields rest h.2 (by omega)
    have hshape : (Json.renderString k).toList ++ ":".toList ++ v.render.toList ++ ",".toList ++
        (Json.renderFields (kv :: fields)).toList ++ '\x7d' :: rest =
        (Json.renderString k).toList ++ ':' :: (v.render.toList ++
          ',' :: ((Json.renderFields (kv :: fields)).toList ++ '\x7d' :: rest)) := by
      simp
    have hsep : ∀ cs, skipWs (',' :: cs) = ',' :: cs := fun _ => rfl
    have hsplit : Json.nulFreeFields ((k, v) :: kv :: fields) =
        (!k.toList.contains '\x00' && v.nulFree && Json.nulFreeFields (kv :: fields)) := by
      rw [Json.nulFreeFields]
    rw [hshape, parseFields_of_value (hvalue v _ h.1 (by omega) (ends_cons_comma _)),
      hsep, List.head?_cons, if_pos rfl, List.tail_cons, hrest, hsplit]
    cases k.toList.contains '\x00' <;> cases v.nulFree <;>
      cases Json.nulFreeFields (kv :: fields) <;> rfl

/-- **What was written is read back** with fuel twice its length. -/
theorem reads (fuel : ℕ) : ReadsValue fuel ∧ ReadsItems fuel ∧ ReadsFields fuel := by
  induction fuel with
  | zero =>
    refine ⟨?_, ?_, ?_⟩
    · intro j rest h hfuel _
      rcases render_starts h with ⟨c, cs, htext, -⟩
      rw [htext, List.length_cons] at hfuel
      omega
    · intro x xs rest h hfuel
      omega
    · intro kv fields rest h hfuel
      omega
  | succ fuel ih =>
    rcases ih with ⟨hvalue, hitems, hfields⟩
    exact ⟨readsValue_succ hitems hfields, readsItems_succ hvalue hitems,
      readsFields_succ hvalue hfields⟩

/-- **What the cast makes of a written text**: it reads the value back, unless one of its strings
or keys holds U+0000, and then it raises. -/
theorem jsonbIn_render {j : Json} (h : j.written = true) :
    jsonbIn j.render = if j.nulFree then some j else none := by
  have hread := (reads (2 * j.render.length + 2)).1 j [] h
    (by rw [String.length_toList]; omega) ends_nil
  rw [List.append_nil] at hread
  unfold jsonbIn
  rw [hread]
  cases j.nulFree <;> rfl

end Jsonb

end LightTrack
