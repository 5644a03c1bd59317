import LightTrack.Core.Event
import Mathlib.Algebra.Order.Ring.Int
import Mathlib.Data.Rat.Floor

/-! # Arithmetic that can panic

Instants are bounded, and so are durations.  Additions of counters stop with a panic in a build with
overflow checks and wrap in one without; `checks` says which build it is.
-/

namespace LightTrack

/-- `f64::round`: to the nearest integer, halves away from zero. -/
def roundAway (x : ℚ) : ℤ := if 0 ≤ x then ⌊x + 1 / 2⌋ else -⌊-x + 1 / 2⌋

/-- Where arithmetic panics. -/
inductive Overflow where
  /-- `TimeDelta::milliseconds` out of bounds -/
  | milliseconds
  /-- `TimeDelta::seconds` out of bounds -/
  | seconds
  /-- `DateTime + TimeDelta` overflowed -/
  | dateTime
  /-- attempt to add with overflow -/
  | add
  /-- attempt to multiply with overflow -/
  | mul
  /-- `DateTime - TimeDelta` overflowed -/
  | dateTimeSub
  deriving DecidableEq

/-! ## Instants -/

namespace Time

/-- `DateTime::<Utc>::MIN_UTC`, the first instant of the year -262143. -/
def minUtc : Int := -8334601228800 * second

/-- `DateTime::<Utc>::MAX_UTC`, the last instant of the year 262142. -/
def maxUtc : Int := 8210266876800 * second - 1

/-- One millisecond. -/
def millisecond : Int := 1000000

/-- Whether an instant is a `DateTime<Utc>`. -/
def InUtc (t : Time) : Prop := minUtc ≤ t ∧ t ≤ maxUtc

instance (t : Time) : Decidable (InUtc t) := inferInstanceAs (Decidable (_ ∧ _))

/-- `DateTime::timestamp_millis`. -/
def timestampMillis (t : Time) : Int := t / millisecond

/-- `Utc.timestamp_millis_opt(ms).single()`. -/
def ofMillis (ms : Int) : Option Time :=
  if InUtc (ms * millisecond) then some (ms * millisecond) else none

/-- `t + Duration::milliseconds(ms)`, of an `i64`. -/
def addMillis (t : Time) (ms : Int) : Except Overflow Time :=
  if ms ≤ -2 ^ 63 then .error .milliseconds
  else if InUtc (t + ms * millisecond) then .ok (t + ms * millisecond)
  else .error .dateTime

/-- `Duration::seconds(secs)` panics beyond the range of `TimeDelta`. -/
def SecondsFit (secs : Int) : Prop := -9223372036854775 ≤ secs ∧ secs ≤ 9223372036854775

instance (secs : Int) : Decidable (SecondsFit secs) := inferInstanceAs (Decidable (_ ∧ _))

/-- `Duration::seconds(secs)`, of an `i64`. -/
def ofSeconds (secs : Int) : Except Overflow Int :=
  if ¬ SecondsFit secs then .error .seconds else .ok (secs * second)

/-- `t + Duration::seconds(secs)`, of an `i64`. -/
def addSeconds (t : Time) (secs : Int) : Except Overflow Time :=
  if ¬ SecondsFit secs then .error .seconds
  else if ¬ InUtc (t + secs * second) then .error .dateTime
  else .ok (t + secs * second)

/-- `t - d`, of a `TimeDelta`. -/
def subDelta (t : Time) (d : Int) : Except Overflow Time :=
  if InUtc (t - d) then .ok (t - d) else .error .dateTimeSub

theorem subDelta_eq_ok_iff {t t' : Time} {d : Int} :
    subDelta t d = .ok t' ↔ InUtc (t - d) ∧ t' = t - d := by
  unfold subDelta
  by_cases h : InUtc (t - d)
  · simp [h, eq_comm]
  · simp [h]

theorem ofSeconds_eq_ok {secs d : Int} (h : ofSeconds secs = .ok d) : d = secs * second := by
  unfold ofSeconds at h
  split_ifs at h
  exact (Except.ok.inj h).symm

theorem addSeconds_eq_ok_iff {t t' : Time} {secs : Int} :
    addSeconds t secs = .ok t' ↔
      (SecondsFit secs ∧ InUtc (t + secs * second)) ∧ t' = t + secs * second := by
  unfold addSeconds
  by_cases hsecs : SecondsFit secs
  · by_cases hutc : InUtc (t + secs * second)
    · simp [hsecs, hutc, eq_comm]
    · simp [hsecs, hutc]
  · simp [hsecs]

theorem addMillis_eq_ok_iff {t t' : Time} {ms : Int} :
    addMillis t ms = .ok t' ↔
      (-2 ^ 63 < ms ∧ InUtc (t + ms * millisecond)) ∧ t' = t + ms * millisecond := by
  unfold addMillis
  by_cases hms : ms ≤ -2 ^ 63
  · rw [if_pos hms]
    constructor
    · intro h
      cases h
    · intro h
      exact absurd hms (not_le.2 h.1.1)
  · rw [if_neg hms]
    by_cases hutc : InUtc (t + ms * millisecond)
    · rw [if_pos hutc, Except.ok.injEq]
      constructor
      · intro h
        exact ⟨⟨not_le.1 hms, hutc⟩, h.symm⟩
      · intro h
        exact h.2.symm
    · simp [hutc]

/-- Whole milliseconds pass through the truncation. -/
theorem timestampMillis_add (t : Time) (ms : Int) :
    timestampMillis (t + ms * millisecond) = timestampMillis t + ms :=
  Int.add_mul_ediv_right _ _ (by decide)

theorem timestampMillis_le {t t' : Time} (h : t ≤ t') : timestampMillis t ≤ timestampMillis t' :=
  Int.ediv_le_ediv (by decide) h

end Time

/-! ## Counters -/

/-- `a + b` of two `u64`. -/
def addU64 (checks : Bool) (a b : UInt64) : Except Overflow UInt64 :=
  if checks = true ∧ 2 ^ 64 ≤ a.toNat + b.toNat then .error .add else .ok (a + b)

/-- `a + b` of two `u32`. -/
def addU32 (checks : Bool) (a b : UInt32) : Except Overflow UInt32 :=
  if checks = true ∧ 2 ^ 32 ≤ a.toNat + b.toNat then .error .add else .ok (a + b)

/-- `a + b` of two `i64`. -/
def addI64 (checks : Bool) (a b : Int) : Except Overflow Int :=
  if checks = true ∧ ¬ InI64 (a + b) then .error .add else .ok (wrapI64 (a + b))

/-- `a * b` of two `i64`. -/
def mulI64 (checks : Bool) (a b : Int) : Except Overflow Int :=
  if checks = true ∧ ¬ InI64 (a * b) then .error .mul else .ok (wrapI64 (a * b))

/-- A guard that stops under a condition. -/
theorem guard_eq_ok_iff {ε α : Type*} {P : Prop} [Decidable P] {e : ε} {x y : α} :
    (if P then (.error e : Except ε α) else .ok x) = .ok y ↔ ¬ P ∧ y = x := by
  by_cases h : P
  · simp [h]
  · simp [h, eq_comm]

theorem addU64_eq_ok_iff {checks : Bool} {a b c : UInt64} :
    addU64 checks a b = .ok c ↔ (checks = true → a.toNat + b.toNat < 2 ^ 64) ∧ c = a + b := by
  unfold addU64
  rw [guard_eq_ok_iff, not_and, not_le]

/-- A sum that fits is no overflow. -/
theorem addU32_of_fits {a b : UInt32} (h : checks = true → a.toNat + b.toNat < 2 ^ 32) :
    addU32 checks a b = .ok (a + b) := by
  unfold addU32
  rw [if_neg]
  rintro ⟨hchecks, hle⟩
  exact absurd (h hchecks) (not_lt.2 hle)

theorem addI64_eq_ok_iff {checks : Bool} {a b c : Int} :
    addI64 checks a b = .ok c ↔
      (checks = true → InI64 (a + b)) ∧ c = wrapI64 (a + b) := by
  unfold addI64
  rw [guard_eq_ok_iff, not_and, not_not]

theorem mulI64_eq_ok_iff {checks : Bool} {a b c : Int} :
    mulI64 checks a b = .ok c ↔
      (checks = true → InI64 (a * b)) ∧ c = wrapI64 (a * b) := by
  unfold mulI64
  rw [guard_eq_ok_iff, not_and, not_not]

theorem mulI64_of_inI64 {checks : Bool} {a b : Int} (h : InI64 (a * b)) :
    mulI64 checks a b = .ok (a * b) :=
  mulI64_eq_ok_iff.2 ⟨fun _ => h, (wrapI64_of_inI64 h).symm⟩

theorem toNat_ofNat_of_lt {n : ℕ} (h : n < 2 ^ 64) : (UInt64.ofNat n).toNat = n :=
  UInt64.toNat_ofNat_of_lt' h

/-- A sum that fits is the sum of the counters. -/
theorem addU64_checked_iff {a b c : UInt64} :
    addU64 true a b = .ok c ↔ c.toNat = a.toNat + b.toNat := by
  rw [addU64_eq_ok_iff]
  constructor
  · rintro ⟨hfit, rfl⟩
    rw [UInt64.toNat_add, Nat.mod_eq_of_lt (hfit rfl)]
  · intro h
    have hlt := c.toNat_lt
    refine ⟨fun _ => by omega, ?_⟩
    rw [← UInt64.toNat_inj, UInt64.toNat_add, h, Nat.mod_eq_of_lt (by omega)]

end LightTrack
