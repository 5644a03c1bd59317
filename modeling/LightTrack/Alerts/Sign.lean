import LightTrack.Core.Clock
import LightTrack.Core.Json
import LightTrack.Engine.Canonical
import Mathlib.Algebra.Order.Group.Unbundled.Abs

/-! # Signed deliveries

The sender signs a body together with a timestamp, and the receiver checks the age of the timestamp
and the signature of that very timestamp.  The age is a difference of two `i64`, which can overflow.

* `readHeader_signatureHeader` : what the sender writes is read back,
* `verify_iff` : a header is accepted just for a signature of its last timestamp,
* `signatures_iff` : the two halves agree, and no header is accepted that was not signed, just if the
  age is an `i64`,
* `wrapped_age_accepted` : an age that is not.
-/

namespace LightTrack

open Json (hexPair)

/-- Bytes. -/
abbrev Bytes := List UInt8

/-- `str::as_bytes` -/
def asBytes (s : String) : Bytes := s.toByteArray.data.toList

/-- `hex` -/
def hex (bytes : Bytes) : String := String.ofList (bytes.flatMap fun b => hexPair b.toNat)

/-- `constant_time_eq` -/
def constantTimeEq (a b : String) : Bool :=
  if (asBytes a).length ≠ (asBytes b).length then false
  else ((asBytes a).zip (asBytes b)).foldl (fun acc p => acc ||| (p.1 ^^^ p.2)) 0 == 0

/-- Where the age of a timestamp overflows. -/
inductive AgeOverflow where
  /-- attempt to subtract with overflow -/
  | sub
  /-- attempt to negate with overflow -/
  | neg
  deriving DecidableEq

/-- `(now - t).abs()` -/
def ageOf (checks : Bool) (now t : Int) : Except AgeOverflow Int :=
  if checks = true ∧ ¬ InI64 (now - t) then .error .sub
  else if wrapI64 (now - t) = -i64Bound then
    -- the least `i64` has no absolute value, and is left as it is
    if checks then .error .neg else .ok (-i64Bound)
  else .ok |wrapI64 (now - t)|

/-- One part of a header: the last timestamp counts, and every signature. -/
def readPart (read : Option Int × List String) (part : String) : Option Int × List String :=
  match splitOnce '=' (strTrim part) with
  | some (k, v) =>
    if k = "t" then (Engine.parseI64 v.toList, read.2)
    else if k = "v1" then (read.1, read.2 ++ [v])
    else read
  | none => read

/-- The timestamp and the signatures of a header. -/
def readHeader (header : String) : Option Int × List String :=
  ((header.toList.splitOn ',').map String.ofList).foldl readPart (none, [])

section Signature

variable (sha256 : Bytes → Bytes) (hmac : Bytes → Bytes → Bytes)

/-- `derive_key` -/
def deriveKey (secret : String) : String := hex (sha256 (asBytes secret))

/-- The text that is signed. -/
def signedText (t : Int) (body : String) : String := toString t ++ "." ++ body

/-- `mac`; there is one for every key. -/
def mac (key : String) (t : Int) (body : String) : String :=
  hex (hmac (asBytes key) (asBytes (signedText t body)))

/-- The keys a channel has. -/
def keysOf (key prev : Option String) : List String := [key, prev].filterMap id

/-- `signature_header` -/
def signatureHeader (key prev : Option String) (t : Int) (body : String) : Option String :=
  let parts := (keysOf key prev).map fun k => "v1=" ++ mac hmac k t body
  if parts.isEmpty then none else some (String.intercalate "," (("t=" ++ toString t) :: parts))

/-- `verify` -/
def verify (checks : Bool) (header secret body : String) (now toleranceSecs : Int) :
    Except AgeOverflow Bool :=
  match (readHeader header).1 with
  | none => .ok false
  | some t => do
    let age ← ageOf checks now t
    if toleranceSecs < age then pure false
    else
      pure ((readHeader header).2.any fun c =>
        constantTimeEq c (mac hmac (deriveKey sha256 secret) t body))

/-- Both hashes are injective, the keyed one on derived keys. -/
structure Ideal : Prop where
  digest : Function.Injective sha256
  keyed : ∀ s s' m m', hmac (asBytes (deriveKey sha256 s)) m = hmac (asBytes (deriveKey sha256 s')) m' →
    deriveKey sha256 s = deriveKey sha256 s' ∧ m = m'

/-- A delivery the sender signed: its secret, timestamp and body. -/
abbrev Signed := String × Int × String

/-- The signatures of a header that are good under a secret are the sender's. -/
def Unforged (signed : List Signed) (header secret : String) : Prop :=
  ∀ c ∈ (readHeader header).2, ∀ t body, c = mac hmac (deriveKey sha256 secret) t body →
    ∃ d ∈ signed, c = mac hmac (deriveKey sha256 d.1) d.2.1 d.2.2

/-- The header made for a body is accepted under either secret, just within the tolerance. -/
def RoundTrips (current : String) (previous : Option String) (body : String)
    (t now toleranceSecs : Int) : Prop :=
  ∃ header, signatureHeader hmac (some (deriveKey sha256 current))
      (previous.map (deriveKey sha256)) t body = some header ∧
    ∀ secret, secret = current ∨ previous = some secret → ∀ checks,
      verify sha256 hmac checks header secret body now toleranceSecs =
        .ok (decide (|now - t| ≤ toleranceSecs))

/-- What is promised of any header: an answer, and acceptance only of what was signed in time. -/
structure SoundHeader (header secret body : String) (now toleranceSecs : Int) : Prop where
  answers : ∀ checks, ∃ b, verify sha256 hmac checks header secret body now toleranceSecs = .ok b
  genuine : ∀ checks, verify sha256 hmac checks header secret body now toleranceSecs = .ok true →
    ∃ t, (readHeader header).1 = some t ∧ |now - t| ≤ toleranceSecs ∧
      mac hmac (deriveKey sha256 secret) t body ∈ (readHeader header).2
  unedited : ∀ signed, Unforged sha256 hmac signed header secret → ∀ checks,
    verify sha256 hmac checks header secret body now toleranceSecs = .ok true →
      ∃ t, (secret, t, body) ∈ signed ∧ |now - t| ≤ toleranceSecs

end Signature

/-- The age of a timestamp and its absolute value are `i64`. -/
def AgeFits (now t : Int) : Prop := |now - t| < i64Bound

instance (now t : Int) : Decidable (AgeFits now t) := inferInstanceAs (Decidable (_ < _))

/-! ## Bytes -/

theorem asBytes_injective : Function.Injective asBytes := by
  intro a b h
  unfold asBytes at h
  exact String.toByteArray_inj.1 (ByteArray.ext (Array.toList_inj.1 h))

theorem foldl_or_eq_zero_iff (l : List (UInt8 × UInt8)) (acc : UInt8) :
    l.foldl (fun acc p => acc ||| (p.1 ^^^ p.2)) acc = 0 ↔ acc = 0 ∧ ∀ p ∈ l, p.1 = p.2 := by
  induction l generalizing acc with
  | nil => simp
  | cons p l ih =>
    rw [List.foldl_cons, ih, UInt8.or_eq_zero_iff, UInt8.xor_eq_zero_iff, List.forall_mem_cons, and_assoc]

theorem zip_eq_iff {a b : Bytes} (h : a.length = b.length) : (∀ p ∈ a.zip b, p.1 = p.2) ↔ a = b := by
  induction a generalizing b with
  | nil => simp [List.length_eq_zero_iff.1 h.symm]
  | cons x a ih =>
    cases b with
    | nil => cases h
    | cons y b =>
      rw [List.length_cons, List.length_cons, Nat.succ_inj] at h
      rw [List.zip_cons_cons, List.forall_mem_cons, ih h, List.cons.injEq]

/-- The comparison is equality. -/
theorem constantTimeEq_iff {a b : String} : constantTimeEq a b = true ↔ a = b := by
  unfold constantTimeEq
  by_cases hlen : (asBytes a).length = (asBytes b).length
  · rw [if_neg (not_not.2 hlen), beq_iff_eq, foldl_or_eq_zero_iff, zip_eq_iff hlen]
    exact ⟨fun h => asBytes_injective h.2, fun h => ⟨rfl, congrArg asBytes h⟩⟩
  · rw [if_pos hlen]
    refine iff_of_false Bool.false_ne_true ?_
    rintro rfl
    exact hlen rfl

/-- A byte in hexadecimal: two digits, and no character of the header's syntax. -/
theorem hexPair_chars (b : UInt8) : ∀ c ∈ hexPair b.toNat, c ≠ ',' ∧ c ≠ '=' ∧ isWhite c = false := by
  have hall : ∀ n < 256, (hexPair n).all fun c => c ≠ ',' ∧ c ≠ '=' ∧ isWhite c = false := by
    decide +kernel
  intro c hc
  exact of_decide_eq_true (List.all_eq_true.1 (hall b.toNat b.toNat_lt) c hc)

theorem hexPair_inj {b b' : UInt8} (h : hexPair b.toNat = hexPair b'.toNat) : b = b' := by
  have hdigit : ∀ d < 16, ∀ d' < 16,
      (if d < 10 then Char.ofNat (48 + d) else Char.ofNat (87 + d)) =
        (if d' < 10 then Char.ofNat (48 + d') else Char.ofNat (87 + d')) → d = d' := by
    decide +kernel
  have hb := b.toNat_lt
  have hb' := b'.toNat_lt
  unfold hexPair at h
  simp only [List.cons.injEq, and_true] at h
  have hhigh := hdigit _ (by omega) _ (by omega) h.1
  have hlow := hdigit _ (by omega) _ (by omega) h.2
  rw [← UInt8.toNat_inj]
  omega

theorem hex_toList (bytes : Bytes) :
    (hex bytes).toList = bytes.flatMap fun b => hexPair b.toNat := String.toList_ofList

theorem hex_chars (bytes : Bytes) : ∀ c ∈ (hex bytes).toList, c ≠ ',' ∧ c ≠ '=' ∧ isWhite c = false := by
  intro c hc
  rw [hex_toList, List.mem_flatMap] at hc
  rcases hc with ⟨b, -, hc⟩
  exact hexPair_chars b c hc

theorem hex_injective : Function.Injective hex := by
  intro a b h
  have hlist := congrArg String.toList h
  rw [hex_toList, hex_toList] at hlist
  clear h
  induction a generalizing b with
  | nil =>
    cases b with
    | nil => rfl
    | cons y b => cases hlist
  | cons x a ih =>
    cases b with
    | nil => cases hlist
    | cons y b =>
      rw [List.flatMap_cons, List.flatMap_cons] at hlist
      have hparts := List.append_inj hlist rfl
      rw [hexPair_inj hparts.1, ih hparts.2]

/-! ## Timestamps as text -/

/-- An integer as text: its digits, behind a sign if it is negative. -/
theorem toString_toList (t : Int) :
    (toString t).toList = (if t < 0 then ['-'] else []) ++ Nat.toDigits 10 t.natAbs := by
  cases t with
  | ofNat n =>
    have hnonneg : ¬ (Int.ofNat n < 0) := not_lt.2 (Int.natCast_nonneg n)
    change (toString n).toList = _
    rw [if_neg hnonneg, Nat.toString_eq_ofList_toDigits, String.toList_ofList]
    rfl
  | negSucc n =>
    change ("-" ++ toString (n + 1)).toList = _
    have hdigits : (toString (n + 1)).toList = Nat.toDigits 10 (n + 1) := by
      rw [Nat.toString_eq_ofList_toDigits, String.toList_ofList]
    rw [if_pos (Int.negSucc_lt_zero n), String.toList_append, hdigits]
    rfl

theorem toString_chars (t : Int) :
    ∀ c ∈ (toString t).toList, c ≠ ',' ∧ c ≠ '=' ∧ c ≠ '.' ∧ isWhite c = false := by
  intro c hc
  rw [toString_toList, List.mem_append] at hc
  rcases hc with hsign | hdigit
  · split_ifs at hsign
    · rw [List.mem_singleton.1 hsign]
      decide
    · cases hsign
  · have hd := Nat.isDigit_of_mem_toDigits (by omega) le_rfl hdigit
    have hrange := Decimal.isDigit_toNat hd
    refine ⟨?_, ?_, ?_, ?_⟩
    · rintro rfl
      cases hd
    · rintro rfl
      cases hd
    · rintro rfl
      cases hd
    · unfold isWhite
      simp only [Bool.or_eq_false_iff, Bool.and_eq_false_iff, beq_eq_false_iff_ne, decide_eq_false_iff_not]
      have hzero : '0'.toNat = 48 := rfl
      omega

/-- **A timestamp is read back**, if it is an `i64`. -/
theorem parseI64_toString (t : Int) : Engine.parseI64 (toString t).toList = Engine.checkedI64 t := by
  have hdigits : ∀ c ∈ Nat.toDigits 10 t.natAbs, c.isDigit = true := fun c hc =>
    Nat.isDigit_of_mem_toDigits (by omega) le_rfl hc
  have hall : (Nat.toDigits 10 t.natAbs).all Char.isDigit = true := List.all_eq_true.2 hdigits
  have hne : Nat.toDigits 10 t.natAbs ≠ [] := Nat.toDigits_ne_nil
  have hvalue : Decimal.value (Nat.toDigits 10 t.natAbs) = t.natAbs := Nat.ofDigitChars_ten_toDigits
  -- no digit is a sign, so what is taken off is the sign that was written
  have hsign : Engine.takeSign ((if t < 0 then ['-'] else []) ++ Nat.toDigits 10 t.natAbs) =
      (if t < 0 then ['-'] else [], Nat.toDigits 10 t.natAbs) := by
    split_ifs
    · rfl
    · rw [List.nil_append]
      cases hd : Nat.toDigits 10 t.natAbs with
      | nil => rfl
      | cons c cs =>
        have hc := hdigits c (hd ▸ List.mem_cons_self ..)
        unfold Engine.takeSign
        split
        · next heq =>
          rw [(List.cons.inj heq).1] at hc
          exact absurd hc (by decide)
        · next heq =>
          rw [(List.cons.inj heq).1] at hc
          exact absurd hc (by decide)
        · rfl
  unfold Engine.parseI64
  rw [toString_toList, hsign]
  simp only
  rw [if_neg (by simp [hne, hall]), hvalue]
  congr 1
  split_ifs with hneg hsigned hsigned
  · omega
  · exact absurd rfl hsigned
  · cases hsigned
  · omega

/-- Signed texts are the same for the same timestamp and body only. -/
theorem signedText_inj {t t' : Int} {body body' : String} (ht : InI64 t)
    (h : signedText t body = signedText t' body') : t' = t ∧ body' = body := by
  have hlist := congrArg String.toList h
  unfold signedText at hlist
  simp only [String.toList_append, List.append_assoc] at hlist
  have hsplit : splitOnce '.' (signedText t body) = splitOnce '.' (signedText t' body') :=
    congrArg _ h
  have hparts : ∀ (t : Int) (body : String),
      splitOnce '.' (signedText t body) = some (toString t, body) := by
    intro t body
    have hlist : (signedText t body).toList = (toString t).toList ++ '.' :: body.toList := by
      unfold signedText
      rw [String.toList_append, String.toList_append, List.append_assoc]
      rfl
    rw [splitOnce_of_not_mem hlist fun hmem => (toString_chars t '.' hmem).2.2.1 rfl,
      String.ofList_toList, String.ofList_toList]
  rw [hparts, hparts, Option.some.injEq, Prod.mk.injEq] at hsplit
  have hread := parseI64_toString t
  rw [hsplit.1, parseI64_toString, Engine.checkedI64_eq (x := t), Engine.checkedI64_eq_some_iff] at hread
  · exact ⟨hread.2, hsplit.2.symm⟩
  · unfold InI64 i64Bound at ht
    unfold Engine.InI64
    omega

/-! ## Headers -/

/-- A name of a field, checked character by character. -/
theorem isField_of_all {cs : List Char} (h : cs.all fun c => c ≠ '=' ∧ isWhite c = false) :
    ∀ c ∈ cs, c ≠ '=' ∧ isWhite c = false := fun c hc =>
  of_decide_eq_true (List.all_eq_true.1 h c hc)

/-- A part without commas or white space is read as it stands. -/
theorem readPart_eq {k v : String} {read : Option Int × List String}
    (hk : ∀ c ∈ k.toList, c ≠ '=' ∧ isWhite c = false) (hv : ∀ c ∈ v.toList, isWhite c = false) :
    readPart read (k ++ "=" ++ v) =
      if k = "t" then (Engine.parseI64 v.toList, read.2)
      else if k = "v1" then (read.1, read.2 ++ [v])
      else read := by
  have hlist : (k ++ "=" ++ v).toList = k.toList ++ '=' :: v.toList := by
    rw [String.toList_append, String.toList_append, List.append_assoc]
    rfl
  have htrim : strTrim (k ++ "=" ++ v) = k ++ "=" ++ v := by
    unfold strTrim
    rw [trimChars_eq_self, String.ofList_toList]
    intro c hc
    rw [hlist, List.mem_append, List.mem_cons] at hc
    rcases hc with hc | rfl | hc
    · exact (hk c hc).2
    · decide
    · exact hv c hc
  unfold readPart
  rw [htrim, splitOnce_of_not_mem hlist fun hmem => (hk '=' hmem).1 rfl, String.ofList_toList,
    String.ofList_toList]

/-- Parts without commas are split at the commas between them. -/
theorem splitOn_parts {parts : List String} (hne : parts ≠ []) (h : ∀ p ∈ parts, ',' ∉ p.toList) :
    ((String.intercalate "," parts).toList.splitOn ',').map String.ofList = parts := by
  have hcomma : ∀ l ∈ parts.map String.toList, ',' ∉ l := by
    intro l hl
    rcases List.mem_map.1 hl with ⟨p, hp, rfl⟩
    exact h p hp
  have hsep : (",").toList = [','] := rfl
  rw [String.toList_intercalate, hsep,
    List.splitOn_intercalate ',' hcomma fun hnil => hne (List.map_eq_nil_iff.1 hnil), List.map_map]
  simp

section Header

variable {sha256 : Bytes → Bytes} {hmac : Bytes → Bytes → Bytes} {t : Int} {body : String}

theorem foldl_readPart (keys : List String) (read : Option Int × List String) :
    (keys.map fun k => "v1=" ++ mac hmac k t body).foldl readPart read =
      (read.1, read.2 ++ keys.map fun k => mac hmac k t body) := by
  induction keys generalizing read with
  | nil =>
    rw [List.map_nil, List.map_nil, List.append_nil]
    rfl
  | cons k keys ih =>
    have hpart : readPart read ("v1=" ++ mac hmac k t body) =
        (read.1, read.2 ++ [mac hmac k t body]) :=
      readPart_eq (k := "v1") (isField_of_all (by decide +kernel)) fun c hc => (hex_chars _ c hc).2.2
    rw [List.map_cons, List.foldl_cons, hpart, ih, List.map_cons, List.append_assoc]
    rfl

/-- **What the sender writes is read back**: the timestamp, and the signature under each key. -/
theorem readHeader_signatureHeader {key prev : Option String} {header : String}
    (h : signatureHeader hmac key prev t body = some header) :
    readHeader header = (Engine.checkedI64 t, (keysOf key prev).map fun k => mac hmac k t body) := by
  unfold signatureHeader at h
  simp only at h
  split_ifs at h
  rw [← Option.some.inj h]
  have hcomma : ∀ p ∈ ("t=" ++ toString t) ::
      ((keysOf key prev).map fun k => "v1=" ++ mac hmac k t body), ',' ∉ p.toList := by
    intro p hp hmem
    rcases List.mem_cons.1 hp with rfl | hp
    · rw [String.toList_append, List.mem_append] at hmem
      rcases hmem with hmem | hmem
      · exact absurd hmem (by decide)
      · exact (toString_chars t ',' hmem).1 rfl
    · rcases List.mem_map.1 hp with ⟨k, -, rfl⟩
      rw [String.toList_append, List.mem_append] at hmem
      rcases hmem with hmem | hmem
      · exact absurd hmem (by decide)
      · exact (hex_chars _ ',' hmem).1 rfl
  have hstamp : readPart (none, []) ("t=" ++ toString t) = (Engine.parseI64 (toString t).toList, []) :=
    readPart_eq (k := "t") (isField_of_all (by decide +kernel)) fun c hc => (toString_chars t c hc).2.2.2
  unfold readHeader
  rw [splitOn_parts (List.cons_ne_nil _ _) hcomma, List.foldl_cons, hstamp, foldl_readPart,
    parseI64_toString]
  rfl

/-! ## Ages -/

variable {checks : Bool} {now toleranceSecs : Int}

theorem ageOf_of_fits (h : AgeFits now t) : ageOf checks now t = .ok |now - t| := by
  have hbounds := abs_lt.1 h
  have hin : InI64 (now - t) := ⟨hbounds.1.le, hbounds.2⟩
  unfold ageOf
  rw [wrapI64_of_inI64 hin, if_neg fun hover => hover.2 hin, if_neg hbounds.1.ne']

/-- A build with overflow checks panics on any other age. -/
theorem ageOf_of_not_fits (h : ¬ AgeFits now t) : ∃ e, ageOf true now t = .error e := by
  unfold ageOf
  by_cases hin : InI64 (now - t)
  · have hmin : now - t = -i64Bound := by
      unfold AgeFits at h
      rw [not_lt, le_abs] at h
      unfold InI64 at hin
      omega
    rw [if_neg fun hover => hover.2 hin, wrapI64_of_inI64 hin, if_pos hmin]
    exact ⟨_, rfl⟩
  · rw [if_pos ⟨rfl, hin⟩]
    exact ⟨_, rfl⟩

/-! ## What is accepted -/

section Verify

variable {header secret : String}

theorem verify_of_unstamped (h : (readHeader header).1 = none) :
    verify sha256 hmac checks header secret body now toleranceSecs = .ok false := by
  unfold verify
  rw [h]

theorem verify_of_stamped (h : (readHeader header).1 = some t) :
    verify sha256 hmac checks header secret body now toleranceSecs =
      (ageOf checks now t).map fun age => decide (age ≤ toleranceSecs) &&
        decide (mac hmac (deriveKey sha256 secret) t body ∈ (readHeader header).2) := by
  have hany : ((readHeader header).2.any fun c =>
      constantTimeEq c (mac hmac (deriveKey sha256 secret) t body)) =
        decide (mac hmac (deriveKey sha256 secret) t body ∈ (readHeader header).2) := by
    rw [Bool.eq_iff_iff, List.any_eq_true, decide_eq_true_iff]
    constructor
    · rintro ⟨c, hc, heq⟩
      rwa [← constantTimeEq_iff.1 heq]
    · intro hmem
      exact ⟨_, hmem, constantTimeEq_iff.2 rfl⟩
  unfold verify
  rw [h]
  simp only [hany]
  cases ageOf checks now t with
  | error e => rfl
  | ok age =>
    change (if toleranceSecs < age then pure false else pure _ : Except AgeOverflow Bool) =
      .ok (decide (age ≤ toleranceSecs) && _)
    by_cases hold : toleranceSecs < age
    · rw [if_pos hold, decide_eq_false (not_le.2 hold), Bool.false_and]
      rfl
    · rw [if_neg hold, decide_eq_true (not_lt.1 hold), Bool.true_and]
      rfl

/-- **A header is accepted just for a signature of its last timestamp**, where the age fits. -/
theorem verify_iff (h : ∀ t, (readHeader header).1 = some t → AgeFits now t) :
    verify sha256 hmac checks header secret body now toleranceSecs = .ok true ↔
      ∃ t, (readHeader header).1 = some t ∧ |now - t| ≤ toleranceSecs ∧
        mac hmac (deriveKey sha256 secret) t body ∈ (readHeader header).2 := by
  rcases hread : (readHeader header).1 with - | t
  · rw [verify_of_unstamped hread]
    simp
  · rw [verify_of_stamped hread, ageOf_of_fits (h t hread)]
    simp [Except.map]

end Verify

/-! ## The two halves -/

section Halves

variable {current : String} {previous : Option String} {header secret : String}

theorem mem_keysOf {key prev : Option String} {k : String} :
    k ∈ keysOf key prev ↔ key = some k ∨ prev = some k := by
  unfold keysOf
  rcases key with - | key <;> rcases prev with - | prev <;> simp [eq_comm]

theorem signatureHeader_some (key : String) (prev : Option String) :
    ∃ header, signatureHeader hmac (some key) prev t body = some header := by
  unfold signatureHeader
  simp only
  rw [if_neg]
  · exact ⟨_, rfl⟩
  · rcases prev with - | prev <;> simp [keysOf]

/-- A header the sender made, read by a receiver with either secret. -/
theorem verify_signatureHeader (ht : InI64 t)
    (hheader : signatureHeader hmac (some (deriveKey sha256 current))
      (previous.map (deriveKey sha256)) t body = some header)
    (hsecret : secret = current ∨ previous = some secret) :
    verify sha256 hmac checks header secret body now toleranceSecs =
      (ageOf checks now t).map fun age => decide (age ≤ toleranceSecs) := by
  have hread := readHeader_signatureHeader hheader
  have hin : Engine.checkedI64 t = some t := by
    refine Engine.checkedI64_eq ?_
    unfold InI64 i64Bound at ht
    unfold Engine.InI64
    omega
  have hkey : deriveKey sha256 secret ∈ keysOf (some (deriveKey sha256 current))
      (previous.map (deriveKey sha256)) := by
    rw [mem_keysOf]
    rcases hsecret with rfl | hprev
    · exact .inl rfl
    · exact .inr (by rw [hprev]; rfl)
  have hmac : mac hmac (deriveKey sha256 secret) t body ∈ (readHeader header).2 := by
    rw [hread]
    exact List.mem_map_of_mem hkey
  rw [hin] at hread
  rw [verify_of_stamped (congrArg Prod.fst hread)]
  simp [hmac]

theorem roundTrips_iff (ht : InI64 t) :
    RoundTrips sha256 hmac current previous body t now toleranceSecs ↔ AgeFits now t := by
  constructor
  · rintro ⟨header, hheader, hverify⟩
    by_contra hfits
    rcases ageOf_of_not_fits hfits with ⟨e, he⟩
    have hpanic := hverify current (.inl rfl) true
    rw [verify_signatureHeader ht hheader (.inl rfl), he] at hpanic
    cases hpanic
  · intro hfits
    obtain ⟨header, hheader⟩ : ∃ header, signatureHeader hmac (some (deriveKey sha256 current))
        (previous.map (deriveKey sha256)) t body = some header := signatureHeader_some _ _
    refine ⟨header, hheader, ?_⟩
    intro secret hsecret checks
    rw [verify_signatureHeader ht hheader hsecret, ageOf_of_fits hfits]
    rfl

/-- A signature is of one secret, timestamp and body. -/
theorem mac_inj (ideal : Ideal sha256 hmac) {secret' : String} {t' : Int} {body' : String}
    (ht : InI64 t) (h : mac hmac (deriveKey sha256 secret) t body =
      mac hmac (deriveKey sha256 secret') t' body') : secret' = secret ∧ t' = t ∧ body' = body := by
  rcases ideal.keyed _ _ _ _ (hex_injective h) with ⟨hkey, htext⟩
  rcases signedText_inj ht (asBytes_injective htext) with ⟨rfl, rfl⟩
  exact ⟨(asBytes_injective (ideal.digest (hex_injective hkey))).symm, rfl, rfl⟩

theorem parseI64_inI64 {cs : List Char} (h : Engine.parseI64 cs = some t) : InI64 t := by
  unfold Engine.parseI64 at h
  simp only at h
  split_ifs at h
  · rcases Engine.checkedI64_eq_some_iff.1 h with ⟨hin, heq⟩
    rw [heq] at hin
    unfold Engine.InI64 at hin
    unfold InI64 i64Bound
    omega
  · rcases Engine.checkedI64_eq_some_iff.1 h with ⟨hin, heq⟩
    rw [heq] at hin
    unfold Engine.InI64 at hin
    unfold InI64 i64Bound
    omega

theorem readHeader_inI64 (h : (readHeader header).1 = some t) : InI64 t := by
  have hfold : ∀ (parts : List String) (read : Option Int × List String),
      (∀ t, read.1 = some t → InI64 t) → ∀ t, (parts.foldl readPart read).1 = some t → InI64 t := by
    intro parts
    induction parts with
    | nil => exact fun read hread => hread
    | cons part parts ih =>
      intro read hread
      refine ih _ ?_
      intro t ht
      unfold readPart at ht
      split at ht
      · split_ifs at ht
        · exact parseI64_inI64 ht
        · exact hread t ht
        · exact hread t ht
      · exact hread t ht
  exact hfold _ _ (fun t ht => by cases ht) t h

theorem soundHeader_iff (ideal : Ideal sha256 hmac) :
    SoundHeader sha256 hmac header secret body now toleranceSecs ↔
      ∀ t, (readHeader header).1 = some t → AgeFits now t := by
  constructor
  · intro h t hread
    by_contra hfits
    rcases ageOf_of_not_fits hfits with ⟨e, he⟩
    rcases h.answers true with ⟨b, hb⟩
    rw [verify_of_stamped hread, he] at hb
    cases hb
  · intro hfits
    refine ⟨?_, fun checks h => (verify_iff hfits).1 h, ?_⟩
    · intro checks
      rcases hread : (readHeader header).1 with - | t
      · exact ⟨false, verify_of_unstamped hread⟩
      · rw [verify_of_stamped hread, ageOf_of_fits (hfits t hread)]
        exact ⟨_, rfl⟩
    · intro signed hunforged checks h
      rcases (verify_iff hfits).1 h with ⟨t, hread, hage, hmem⟩
      rcases hunforged _ hmem t body rfl with ⟨d, hd, heq⟩
      rcases mac_inj ideal (readHeader_inI64 hread) heq with ⟨hsecret, ht, hbody⟩
      refine ⟨t, ?_, hage⟩
      rw [← hsecret, ← ht, ← hbody]
      exact hd

/-- **Signatures verify exactly what was signed, when it was signed**, just if the age of the
timestamp is an `i64`. -/
theorem signatures_iff (ideal : Ideal sha256 hmac) :
    (∀ current previous body t now toleranceSecs, InI64 t →
      (RoundTrips sha256 hmac current previous body t now toleranceSecs ↔ AgeFits now t)) ∧
    ∀ header secret body now toleranceSecs,
      SoundHeader sha256 hmac header secret body now toleranceSecs ↔
        ∀ t, (readHeader header).1 = some t → AgeFits now t :=
  ⟨fun _ _ _ _ _ _ ht => roundTrips_iff ht, fun _ _ _ _ _ => soundHeader_iff ideal⟩

end Halves

end Header

/-! ## A delivery -/

/-- The hashes of one delivery, and others that are told apart from them. -/
def sampleSha256 (bytes : Bytes) : Bytes :=
  if bytes = asBytes "whsec_test_9f2a" then
    [241, 75, 123, 250, 171, 232, 41, 205, 49, 86, 115, 123, 177, 69, 8, 115, 66, 118, 158, 72, 202, 92,
      71, 156, 196, 12, 10, 130, 171, 99, 91, 105]
  else 0 :: bytes

/-- The body of the delivery. -/
def sampleBody : String := "\x7b\"event\":\"limit_breach\",\"text\":\"over budget\"\x7d"

/-- Two texts as one. -/
def pairBytes (k m : Bytes) : Bytes := k.map (fun _ => 1) ++ 0 :: (k ++ m)

def sampleHmac (k m : Bytes) : Bytes :=
  if k = asBytes (deriveKey sampleSha256 "whsec_test_9f2a") ∧
      m = asBytes (signedText 1756732800 sampleBody) then
    [183, 15, 30, 4, 139, 17, 236, 157, 178, 16, 159, 133, 103, 248, 41, 117, 90, 249, 127, 167, 112,
      162, 20, 214, 119, 158, 40, 22, 132, 191, 213, 161]
  else pairBytes k m

theorem pairBytes_inj {k m k' m' : Bytes} (h : pairBytes k m = pairBytes k' m') :
    k = k' ∧ m = m' := by
  have hmark : ∀ (k k' x x' : Bytes), k.map (fun _ => (1 : UInt8)) ++ 0 :: x =
      k'.map (fun _ => 1) ++ 0 :: x' → k.length = k'.length ∧ x = x' := by
    intro k
    induction k with
    | nil =>
      intro k' x x' h
      cases k' with
      | nil => exact ⟨rfl, (List.cons.inj h).2⟩
      | cons y k' =>
        have hmark : (0 : UInt8) = 1 := (List.cons.inj h).1
        exact absurd hmark (by decide)
    | cons y k ih =>
      intro k' x x' h
      cases k' with
      | nil =>
        have hmark : (1 : UInt8) = 0 := (List.cons.inj h).1
        exact absurd hmark (by decide)
      | cons z k' =>
        rcases ih k' x x' (List.cons.inj h).2 with ⟨hlen, hx⟩
        exact ⟨congrArg Nat.succ hlen, hx⟩
  rcases hmark k k' _ _ h with ⟨hlen, hx⟩
  exact List.append_inj hx hlen

/-- What tells two texts as one from a signature. -/
theorem pairBytes_head {k m : Bytes} {b : UInt8} {bytes : Bytes} (h : pairBytes k m = b :: bytes) :
    b = 0 ∨ b = 1 := by
  cases k with
  | nil => exact .inl (List.cons.inj h).1.symm
  | cons x k => exact .inr (List.cons.inj h).1.symm

theorem sampleSha256_injective : Function.Injective sampleSha256 := by
  intro a b h
  unfold sampleSha256 at h
  split_ifs at h with ha hb hb
  · rw [ha, hb]
  · exact absurd (List.cons.inj h).1 (by decide)
  · exact absurd (List.cons.inj h).1 (by decide)
  · exact (List.cons.inj h).2

theorem sampleIdeal : Ideal sampleSha256 sampleHmac := by
  refine ⟨sampleSha256_injective, ?_⟩
  intro s s' m m' h
  unfold sampleHmac at h
  split_ifs at h with ha hb hb
  · exact ⟨asBytes_injective (ha.1.trans hb.1.symm), ha.2.trans hb.2.symm⟩
  · exact absurd (pairBytes_head h.symm) (by decide)
  · exact absurd (pairBytes_head h) (by decide)
  · rcases pairBytes_inj h with ⟨hkey, hm⟩
    exact ⟨asBytes_injective hkey, hm⟩

/-- The delivery verifies two minutes later. -/
theorem signatures_sample :
    RoundTrips sampleSha256 sampleHmac "whsec_test_9f2a" none sampleBody 1756732800 1756732920 300 :=
  ((signatures_iff sampleIdeal).1 _ _ _ _ _ _ (by decide)).2 (by decide)

/-- A timestamp 2^63 seconds before the clock is accepted. -/
theorem wrapped_age_accepted :
    ¬ RoundTrips sampleSha256 sampleHmac "whsec_test_9f2a" none sampleBody (1756732800 - 2 ^ 63)
      1756732800 300 := by
  rintro ⟨header, hheader, hverify⟩
  have h := hverify _ (.inl rfl) false
  rw [verify_signatureHeader (by decide) hheader (.inl rfl)] at h
  revert h
  decide

end LightTrack
