import Mathlib.Algebra.Ring.Int.Defs
import Mathlib.Data.String.Basic
import Mathlib.Tactic.Basic

/-! # JSON values

`serde_json::Value` as the events carry it, with the object operations the
ingest path uses on `metadata` and the compact text `serde_json::to_string`
writes.

An object is its list of entries.  Parsing never yields a repeated key, but no
operation here relies on it: `get` reads the first entry, `remove` takes every
entry of a key away, and `insert` leaves a key with the new value only.
-/

namespace LightTrack

/-- A JSON number: an integer, or any other number by the text it is written as. -/
inductive JsonNumber where
  | int (n : Int)
  | float (text : String)
  deriving DecidableEq

/-- `serde_json::Value`. -/
inductive Json where
  | null
  | bool (b : Bool)
  | num (n : JsonNumber)
  | str (s : String)
  | arr (xs : List Json)
  | obj (fields : List (String × Json))

namespace Json

/-! ## Object entries -/

/-- The value of the first entry under `key`. -/
def lookup (key : String) (fields : List (String × Json)) : Option Json :=
  (fields.find? (fun kv => kv.1 == key)).map Prod.snd

/-- `Map::remove`. -/
def removeKey (key : String) (fields : List (String × Json)) : List (String × Json) :=
  fields.filter (fun kv => kv.1 != key)

/-- `Map::insert`. -/
def insertKey (key : String) (value : Json) (fields : List (String × Json)) :
    List (String × Json) :=
  removeKey key fields ++ [(key, value)]

@[simp] theorem lookup_nil (key : String) : lookup key [] = none := rfl

theorem lookup_cons (key : String) (kv : String × Json) (fields : List (String × Json)) :
    lookup key (kv :: fields) = if kv.1 = key then some kv.2 else lookup key fields := by
  unfold lookup
  by_cases h : kv.1 = key <;> simp [h]

theorem lookup_removeKey_self (key : String) (fields : List (String × Json)) :
    lookup key (removeKey key fields) = none := by
  unfold lookup removeKey
  rw [Option.map_eq_none_iff, List.find?_eq_none]
  intro kv hkv
  simpa using (List.mem_filter.1 hkv).2

theorem lookup_removeKey_of_ne {key key' : String} (h : key' ≠ key)
    (fields : List (String × Json)) :
    lookup key' (removeKey key fields) = lookup key' fields := by
  unfold lookup removeKey
  induction fields with
  | nil => rfl
  | cons kv fields ih =>
    by_cases hkey : kv.1 = key
    · have hne : (kv.1 == key') = false := by simpa [hkey] using h.symm
      rw [List.filter_cons_of_neg (by simpa using hkey), List.find?_cons_of_neg (by simpa using hne)]
      exact ih
    · rw [List.filter_cons_of_pos (by simpa using hkey)]
      by_cases hkey' : kv.1 = key'
      · simp [hkey']
      · rw [List.find?_cons_of_neg (by simpa using hkey'),
          List.find?_cons_of_neg (by simpa using hkey')]
        exact ih

theorem lookup_append (key : String) (fields fields' : List (String × Json)) :
    lookup key (fields ++ fields') = (lookup key fields).or (lookup key fields') := by
  unfold lookup
  rw [List.find?_append]
  cases List.find? (fun kv => kv.1 == key) fields <;> rfl

theorem lookup_insertKey_self (key : String) (value : Json) (fields : List (String × Json)) :
    lookup key (insertKey key value fields) = some value := by
  rw [insertKey, lookup_append, lookup_removeKey_self]
  simp [lookup]

theorem lookup_insertKey_of_ne {key key' : String} (h : key' ≠ key) (value : Json)
    (fields : List (String × Json)) :
    lookup key' (insertKey key value fields) = lookup key' fields := by
  rw [insertKey, lookup_append, lookup_removeKey_of_ne h]
  have hne : (key == key') = false := by simpa using h.symm
  simp [lookup, hne]

/-! ## Values -/

/-- `Value::get` with a string index: a value that is no object has no members. -/
def get (key : String) : Json → Option Json
  | obj fields => lookup key fields
  | _ => none

/-- `Value::as_str`. -/
def asStr : Json → Option String
  | str s => some s
  | _ => none

/-- `Value::as_bool`. -/
def asBool : Json → Option Bool
  | bool b => some b
  | _ => none

/-- `Value::as_u64`. -/
def asU64 : Json → Option Nat
  | .num (.int n) => if 0 ≤ n ∧ n < 2 ^ 64 then some n.toNat else none
  | _ => none

/-- `Value::as_array`. -/
def asArray : Json → Option (List Json)
  | .arr xs => some xs
  | _ => none

/-- `Value::is_null`. -/
def isNull : Json → Bool
  | null => true
  | _ => false

/-- `Value::is_object`. -/
def isObject : Json → Bool
  | obj _ => true
  | _ => false

/-- The string member under `key`, the way every accessor of the event reads one. -/
def getStr (key : String) (j : Json) : Option String := (j.get key).bind asStr

@[simp] theorem get_obj (key : String) (fields : List (String × Json)) :
    (obj fields).get key = lookup key fields := rfl

@[simp] theorem get_null (key : String) : null.get key = none := rfl

theorem isObject_eq_false {j : Json} (h : ∀ fields, j = .obj fields → False) :
    j.isObject = false := by
  cases j with
  | obj fields => exact (h fields rfl).elim
  | _ => rfl

theorem get_of_not_isObject {j : Json} (h : j.isObject = false) (key : String) :
    j.get key = none := by
  cases j <;> first | rfl | simp [isObject] at h

theorem getStr_eq_some_iff {j : Json} {key s : String} :
    j.getStr key = some s ↔ j.get key = some (str s) := by
  unfold getStr
  constructor
  · intro h
    obtain ⟨v, hv, hs⟩ := Option.bind_eq_some_iff.1 h
    cases v <;> simp [asStr] at hs
    rw [hv, hs]
  · intro h
    simp [h, asStr]

/-! ## Text -/

/-- The two lowercase hexadecimal digits of a control character. -/
def hexPair (n : Nat) : List Char :=
  let digit (d : Nat) : Char := if d < 10 then Char.ofNat (48 + d) else Char.ofNat (87 + d)
  [digit (n / 16), digit (n % 16)]

/-- How `serde_json` writes one character of a string. -/
def escapeChar (c : Char) : List Char :=
  match c.toNat with
  | 0x22 => ['\\', '"']
  | 0x5C => ['\\', '\\']
  | 0x08 => ['\\', 'b']
  | 0x09 => ['\\', 't']
  | 0x0A => ['\\', 'n']
  | 0x0C => ['\\', 'f']
  | 0x0D => ['\\', 'r']
  | n => if n < 0x20 then ['\\', 'u', '0', '0'] ++ hexPair n else [c]

/-- A string literal, with its quotes. -/
def renderString (s : String) : String :=
  "\"" ++ String.ofList (s.toList.flatMap escapeChar) ++ "\""

/-- A number as it is written. -/
def renderNumber : JsonNumber → String
  | .int n => toString n
  | .float text => text

mutual

/-- `serde_json::to_string`. -/
def render : Json → String
  | null => "null"
  | bool b => if b then "true" else "false"
  | num n => renderNumber n
  | str s => renderString s
  | arr xs => "[" ++ renderItems xs ++ "]"
  | obj fields => "\x7b" ++ renderFields fields ++ "\x7d"

/-- The comma-separated elements of an array. -/
def renderItems : List Json → String
  | [] => ""
  | [x] => x.render
  | x :: y :: xs => x.render ++ "," ++ renderItems (y :: xs)

/-- The comma-separated members of an object. -/
def renderFields : List (String × Json) → String
  | [] => ""
  | [(k, v)] => renderString k ++ ":" ++ v.render
  | (k, v) :: kv :: fields => renderString k ++ ":" ++ v.render ++ "," ++ renderFields (kv :: fields)

end

example : (obj [("a", arr [num (.int 1), str "x\n"]), ("b", null)]).render
    = "\x7b\"a\":[1,\"x\\n\"],\"b\":null\x7d" := by decide +kernel

end Json

end LightTrack
