import LightTrack.Postgres.Jsonb
import Mathlib.Data.List.Basic

/-! # Members of a jsonb value as text

`->>` extracts a member of an object as text: a string as itself, NULL as NULL, and
anything else as `jsonb` prints it.  So a number, a boolean, an array or an object also
equals the text it prints as.

* `asText_eq_some_iff` : what equals a text,
* `arrow_eq` : `->>` on a value that was written is the member it has.
-/

namespace LightTrack

namespace Jsonb

/-! ## Output -/

/-- The value of an exponent, after its letter. -/
def exponentValue (cs : List Char) : Int :=
  match cs with
  | '-' :: ds => -(Decimal.value (ds.takeWhile Char.isDigit) : Int)
  | '+' :: ds => Decimal.value (ds.takeWhile Char.isDigit)
  | ds => Decimal.value (ds.takeWhile Char.isDigit)

/-- Digits in positional notation, the decimal point behind the first `point` of them. -/
def positional (neg : Bool) (digits : List Char) (point : Int) : List Char :=
  let front := (digits.take point.toNat ++
    List.replicate (point.toNat - digits.length) '0').dropWhile fun c => c == '0'
  let back := List.replicate (-point).toNat '0' ++ digits.drop point.toNat
  -- there is no negative zero
  (if neg && digits.any fun c => c != '0' then ['-'] else []) ++
    (if front.isEmpty then ['0'] else front) ++ (if back.isEmpty then [] else '.' :: back)

/-- How `numeric` prints a literal: in positional notation, with as many decimals as the literal
gives. -/
def numericText (text : String) : String :=
  let (sign, cs) := lexSign ['-'] text.toList
  let (whole, cs) := lexDigits cs
  let point := cs.head? == some '.'
  let (frac, cs) := if point then lexDigits cs.tail else ([], cs)
  String.ofList (positional (!sign.isEmpty) (whole ++ frac) (whole.length + exponentValue cs.tail))

example : numericText "-1.50e2" = "-150" ∧ numericText "1.5e-3" = "0.0015" ∧
    numericText "-0.0" = "0.0" := by decide +kernel

/-- Of several members under one key the last one is kept. -/
def lastOnly {α : Type*} : List (String × α) → List (String × α)
  | [] => []
  | kv :: fields => if fields.any fun kv' => kv'.1 == kv.1 then lastOnly fields
    else kv :: lastOnly fields

/-- Keys are stored shorter ones first. -/
def keyLe (k k' : String) : Bool :=
  decide (k.utf8ByteSize < k'.utf8ByteSize) || (k.utf8ByteSize == k'.utf8ByteSize && decide (k ≤ k'))

mutual

/-- How `jsonb` prints a value. -/
def out : Json → String
  | .null => "null"
  | .bool b => if b then "true" else "false"
  | .num (.int n) => toString n
  | .num (.float text) => numericText text
  | .str s => Json.renderString s
  | .arr xs => "[" ++ ", ".intercalate (outItems xs) ++ "]"
  | .obj fields =>
    "\x7b" ++ ", ".intercalate (((lastOnly (outFields fields)).mergeSort fun a b =>
      keyLe a.1 b.1).map fun kv => Json.renderString kv.1 ++ ": " ++ kv.2) ++ "\x7d"

def outItems : List Json → List String
  | [] => []
  | x :: xs => out x :: outItems xs

def outFields : List (String × Json) → List (String × String)
  | [] => []
  | (k, v) :: fields => (k, out v) :: outFields fields

end

/-- A value as text: NULL has none, and a string is its own. -/
def asText : Json → Option String
  | .null => none
  | .str s => some s
  | j => some (out j)

/-- `value->>'key'`: only an object has members. -/
def arrow (key : String) : Json → Option String
  | .obj fields => (Json.lookup key fields.reverse).bind asText
  | _ => none

/-! ## What equals a text -/

/-- Whether a value that is no string prints as `v`. -/
def printsAs (v : String) : Json → Bool
  | .null | .str _ => false
  | j => out j == v

/-- **A value equals a text if it is that string, or prints as it.** -/
theorem asText_eq_some_iff {j : Json} {v : String} :
    asText j = some v ↔ j = .str v ∨ printsAs v j = true := by
  cases j <;> simp [asText, printsAs]

/-- Reading the last member under a key is reading the first, where no key is repeated. -/
theorem lookup_reverse {fields : List (String × Json)} (h : (fields.map Prod.fst).Nodup)
    (key : String) : Json.lookup key fields.reverse = Json.lookup key fields := by
  induction fields with
  | nil => rfl
  | cons kv fields ih =>
    rw [List.map_cons, List.nodup_cons] at h
    rw [List.reverse_cons, Json.lookup_append, ih h.2, Json.lookup_cons]
    by_cases hkey : kv.1 = key
    · have hnone : Json.lookup key fields = none := by
        unfold Json.lookup
        rw [Option.map_eq_none_iff, List.find?_eq_none]
        intro kv' hkv'
        have hne : kv'.1 ≠ key := by
          rintro rfl
          exact h.1 (hkey ▸ List.mem_map_of_mem hkv')
        simpa using hne
      rw [hnone, if_pos hkey]
      simp [Json.lookup, hkey]
    · simp [hkey, Json.lookup]

/-- `->>` on a value that was written. -/
theorem arrow_eq {j : Json} (h : j.written = true) (key : String) :
    arrow key j = (j.get key).bind asText := by
  cases j with
  | obj fields =>
    rw [Json.written, Bool.and_eq_true, decide_eq_true_eq] at h
    change (Json.lookup key fields.reverse).bind asText = _
    rw [lookup_reverse h.1]
    rfl
  | _ => rfl

/-- Digits are printed as digits, a sign and a point. -/
theorem positional_chars {neg : Bool} {digits : List Char} {point : Int}
    (h : ∀ c ∈ digits, c.isDigit = true) :
    ∀ c ∈ positional neg digits point, c.isDigit = true ∨ c = '-' ∨ c = '.' := by
  have hzeros : ∀ n, ∀ c ∈ List.replicate n '0', c.isDigit = true := by
    intro n c hc
    rw [List.eq_of_mem_replicate hc]
    rfl
  intro c hc
  unfold positional at hc
  simp only [List.mem_append] at hc
  rcases hc with (hc | hc) | hc
  · split_ifs at hc
    · exact .inr (.inl (List.mem_singleton.1 hc))
    · simp at hc
  · split_ifs at hc
    · rw [List.mem_singleton.1 hc]
      exact .inl rfl
    · have hmem := (List.dropWhile_sublist _).subset hc
      rcases List.mem_append.1 hmem with hmem | hmem
      · exact .inl (h c (List.mem_of_mem_take hmem))
      · exact .inl (hzeros _ c hmem)
  · split_ifs at hc
    · simp at hc
    · rcases List.mem_cons.1 hc with rfl | hc
      · exact .inr (.inr rfl)
      · rcases List.mem_append.1 hc with hc | hc
        · exact .inl (hzeros _ c hc)
        · exact .inl (h c (List.mem_of_mem_drop hc))

theorem numericText_chars (text : String) :
    ∀ c ∈ (numericText text).toList, c.isDigit = true ∨ c = '-' ∨ c = '.' := by
  have hdigits : ∀ cs, ∀ c ∈ (lexDigits cs).1, c.isDigit = true := by
    intro cs c hc
    exact List.mem_takeWhile_imp hc
  unfold numericText
  simp only [String.toList_ofList]
  refine positional_chars ?_
  intro c hc
  rcases List.mem_append.1 hc with hc | hc
  · exact hdigits _ c hc
  · split_ifs at hc
    · exact hdigits _ c hc
    · simp at hc

/-- Nothing but the string itself prints as `client`. -/
theorem printsAs_client (j : Json) : printsAs "client" j = false := by
  cases j with
  | null => rfl
  | bool b => cases b <;> decide +kernel
  | str s => rfl
  | num n =>
    cases n with
    | int n =>
      -- the text starts with a digit or a sign
      rcases head_of_lexNumber (lexNumber_int n) with ⟨c, cs, htext, hc⟩
      have hne : out (.num (.int n)) ≠ "client" := by
        intro heq
        rw [out] at heq
        rw [heq] at htext
        have hcc : 'c' = c := (List.cons.inj htext).1
        rw [← hcc] at hc
        revert hc
        decide
      simpa [printsAs] using hne
    | float text =>
      have hne : out (.num (.float text)) ≠ "client" := by
        intro heq
        rw [out] at heq
        have hc := numericText_chars text 'c' (by rw [heq]; decide)
        revert hc
        decide
      simpa [printsAs] using hne
  | arr xs =>
    have hne : out (.arr xs) ≠ "client" := by
      intro heq
      rw [out] at heq
      have hhead := congrArg (fun s : String => s.toList.head?) heq
      simp [String.toList_append] at hhead
    simpa [printsAs] using hne
  | obj fields =>
    have hne : out (.obj fields) ≠ "client" := by
      intro heq
      rw [out] at heq
      have hhead := congrArg (fun s : String => s.toList.head?) heq
      simp [String.toList_append] at hhead
    simpa [printsAs] using hne

end Jsonb

end LightTrack
