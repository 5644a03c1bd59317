import LightTrack.Core.Json
import LightTrack.Store.Timestamp

/-! # Page cursors

A cursor is the hex of `ts|id`.  It is split at the first separator, so only the timestamp must be
free of it and any id survives.

* `decodeEventCursor_encodeEventCursor` : a cursor decodes to what was encoded.
-/

namespace LightTrack

/-- `encode_event_cursor`. -/
def encodeEventCursor (ts id : String) : String :=
  String.ofList ((ts ++ "|" ++ id).toUTF8.data.toList.flatMap fun b => Json.hexPair b.toNat)

/-- The value of a hexadecimal digit, of either case. -/
def hexValue (c : Char) : Option ℕ :=
  if '0' ≤ c ∧ c ≤ '9' then some (c.toNat - 48)
  else if 'a' ≤ c ∧ c ≤ 'f' then some (c.toNat - 87)
  else if 'A' ≤ c ∧ c ≤ 'F' then some (c.toNat - 55)
  else none

/-- `u8::from_str_radix` of two characters: a plus sign may lead. -/
def byteOfPair (a b : Char) : Option UInt8 :=
  if a = '+' then (hexValue b).map UInt8.ofNat
  else (hexValue a).bind fun x => (hexValue b).map fun y => UInt8.ofNat (16 * x + y)

/-- The bytes that pairs of characters spell. A character outside ASCII spells none, so counting
characters in place of bytes refuses the same texts. -/
def bytesOfHex : List Char → Option (List UInt8)
  | [] => some []
  | [_] => none
  | a :: b :: cs => (byteOfPair a b).bind fun x => (bytesOfHex cs).map fun xs => x :: xs

/-- `decode_event_cursor`. -/
def decodeEventCursor (s : String) : Option (String × String) :=
  if s.isEmpty then none
  else (bytesOfHex s.toList).bind fun bytes =>
    (String.fromUTF8? bytes.toByteArray).bind (splitOnce '|')

/-! ## Hex -/

theorem hexValue_digit {n : ℕ} (h : n < 16) :
    hexValue (if n < 10 then Char.ofNat (48 + n) else Char.ofNat (87 + n)) = some n := by
  interval_cases n <;> decide

/-- A byte is written as two digits that spell it. -/
theorem hexPair_eq {n : ℕ} (h : n < 256) :
    ∃ a b, Json.hexPair n = [a, b] ∧ a ≠ '+' ∧ hexValue a = some (n / 16) ∧
      hexValue b = some (n % 16) := by
  refine ⟨_, _, rfl, ?_, hexValue_digit (by omega), hexValue_digit (by omega)⟩
  have hplus : hexValue '+' = none := by decide
  intro heq
  have hvalue := hexValue_digit (n := n / 16) (by omega)
  have hplus' : hexValue '+' = some (n / 16) := heq ▸ hvalue
  rw [hplus] at hplus'
  cases hplus'

theorem bytesOfHex_flatMap (bytes : List UInt8) :
    bytesOfHex (bytes.flatMap fun b => Json.hexPair b.toNat) = some bytes := by
  induction bytes with
  | nil => rfl
  | cons b bytes ih =>
    rcases hexPair_eq b.toNat_lt with ⟨x, y, hpair, hplus, hx, hy⟩
    have hbyte : byteOfPair x y = some b := by
      have hsplit : 16 * (b.toNat / 16) + b.toNat % 16 = b.toNat := Nat.div_add_mod _ _
      unfold byteOfPair
      rw [if_neg hplus, hx, hy, Option.bind_some, Option.map_some, hsplit, UInt8.ofNat_toNat]
    rw [List.flatMap_cons, hpair, List.cons_append, List.cons_append, List.nil_append, bytesOfHex,
      hbyte, Option.bind_some, ih, Option.map_some]

/-! ## Round trip -/

/-- A cursor decodes to what was encoded. -/
theorem decodeEventCursor_encodeEventCursor {ts id : String} (h : '|' ∉ ts.toList) :
    decodeEventCursor (encodeEventCursor ts id) = some (ts, id) := by
  obtain ⟨raw, hraw⟩ : ∃ raw, raw = ts ++ "|" ++ id := ⟨_, rfl⟩
  have hlist : raw.toList = ts.toList ++ '|' :: id.toList := by
    rw [hraw, String.toList_append, String.toList_append, List.append_assoc]
    rfl
  have hbytes : raw.toUTF8.data.toList.toByteArray = raw.toUTF8 := by
    apply ByteArray.ext
    rw [List.data_toByteArray]
  have hutf8 : String.fromUTF8? raw.toUTF8 = some raw := dif_pos raw.isValidUTF8
  have hdecoded : bytesOfHex (encodeEventCursor ts id).toList = some raw.toUTF8.data.toList := by
    unfold encodeEventCursor
    rw [← hraw, String.toList_ofList]
    exact bytesOfHex_flatMap _
  have hnonempty : (encodeEventCursor ts id).isEmpty = false := by
    rw [Bool.eq_false_iff]
    intro hempty
    rw [String.isEmpty_iff.1 hempty] at hdecoded
    rw [← Option.some.inj hdecoded] at hbytes
    have hraw' : raw = "" := String.toByteArray_inj.1 hbytes.symm
    rw [hraw'] at hlist
    simp at hlist
  unfold decodeEventCursor
  rw [hnonempty, if_neg Bool.false_ne_true, hdecoded, Option.bind_some, hbytes, hutf8,
    Option.bind_some, splitOnce_of_not_mem hlist h, String.ofList_toList, String.ofList_toList]

/-- The separator is no character of a timestamp. -/
theorem fmtTs_no_separator (t : Time) : '|' ∉ (fmtTs t).toList :=
  not_mem_fmtTs (by decide) (by decide) t

end LightTrack
