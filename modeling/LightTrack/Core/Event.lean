import LightTrack.Core.Json
import LightTrack.Core.Provider
import LightTrack.Core.Text
import Mathlib.Data.Rat.Defs

/-! # The normalized LLM call

`LlmEvent` is the record everything else is derived from.  Money is exact
(`ℚ`): a JSON number is finite, so no NaN or infinity reaches a cost.  Instants
are nanoseconds since the epoch, the resolution timestamps are stored with.

The field no modelled function reads (`operation`) is left out.
-/

namespace LightTrack

/-- An instant, in nanoseconds since the epoch. -/
abbrev Time := Int

namespace Time

/-- One second. -/
def second : Int := 1000000000

/-- `chrono::Duration::num_seconds`: whole seconds, rounded towards zero. -/
def numSeconds (d : Int) : Int := d.tdiv second

end Time

/-- Call outcome. -/
inductive Status where
  | success
  | error
  | timeout
  deriving DecidableEq

/-- The producer's verdict on how a call failed. -/
inductive FailureClass where
  | transient
  | terminal
  | unknown
  deriving DecidableEq

namespace FailureClass

/-- `FailureClass::as_str`. -/
def asStr : FailureClass → String
  | transient => "transient"
  | terminal => "terminal"
  | unknown => "unknown"

/-- `FailureClass::ALL`. -/
def all : List FailureClass := [transient, terminal, unknown]

/-- `FailureClass::from_wire`: anything outside the vocabulary is `unknown`. -/
def fromWire (s : String) : FailureClass :=
  let s := toAsciiLowercase (strTrim s)
  (all.find? fun v => v.asStr == s).getD unknown

/-- Every class survives the wire. -/
@[simp] theorem fromWire_asStr (c : FailureClass) : fromWire c.asStr = c := by
  cases c <;> decide +kernel

end FailureClass

/-- `FAILURE_CLASS_KEY`. -/
def FAILURE_CLASS_KEY : String := "failure_class"

/-- Token accounting for one call: `u64` counters, `cachedInput` a part of `input`. -/
structure TokenUsage where
  input : UInt64
  output : UInt64
  cachedInput : Option UInt64 := none
  reasoning : Option UInt64 := none
  deriving DecidableEq

namespace TokenUsage

/-- `TokenUsage::cached_tokens`. -/
def cachedTokens (u : TokenUsage) : UInt64 := u.cachedInput.getD 0

/-- `TokenUsage::check_subcounts`: the cached part never exceeds the whole. -/
def checkSubcounts (u : TokenUsage) : Bool :=
  match u.cachedInput with
  | some cached => decide (cached ≤ u.input)
  | none => true

/-- `TokenUsage::billable_input`. -/
def billableInput (u : TokenUsage) : Option UInt64 :=
  if u.checkSubcounts then some (u.input - u.cachedTokens) else none

end TokenUsage

/-- One normalized LLM call. -/
structure LlmEvent where
  id : String
  projectId : String
  traceId : Option String := none
  spanId : Option String := none
  parentSpanId : Option String := none
  ts : Time
  /-- Server-stamped arrival time, the axis of every accounting window. -/
  receivedAt : Time
  provider : ProviderId
  model : String
  name : Option String := none
  usage : TokenUsage
  costUsd : Option ℚ := none
  latencyMs : Option UInt64 := none
  status : Status := .success
  error : Option String := none
  input : Option Json := none
  output : Option Json := none
  tags : List String := []
  source : Option String := none
  metadata : Json := .null

/-- The dimensions of one event that a limit scope is matched against. -/
structure ScopeDims where
  provider : String
  model : String
  name : Option String
  apiKeyId : Option String
  customerId : Option String
  deriving DecidableEq

/-- `ScopeDims::new`: the three dimensions an aggregate row carries. -/
def ScopeDims.new (provider model : String) (name : Option String) : ScopeDims :=
  { provider, model, name, apiKeyId := none, customerId := none }

namespace LlmEvent

/-- `LlmEvent::customer_id`. -/
def customerId (ev : LlmEvent) : Option String := ev.metadata.getStr "customer_id"

/-- `LlmEvent::cost_source`. -/
def costSource (ev : LlmEvent) : Option String := ev.metadata.getStr "cost_source"

/-- `LlmEvent::cost_is_client_reported`. -/
def costIsClientReported (ev : LlmEvent) : Bool := ev.costSource == some "client"

/-- `LlmEvent::api_key_id`. -/
def apiKeyId (ev : LlmEvent) : Option String := ev.metadata.getStr "api_key_id"

/-- `LlmEvent::scope_dims`. -/
def scopeDims (ev : LlmEvent) : ScopeDims :=
  { provider := ev.provider.asStr, model := ev.model, name := ev.name
    apiKeyId := ev.apiKeyId, customerId := ev.customerId }

end LlmEvent

/-! ## Integer conversions -/

/-- `i64::MAX + 1`. -/
def i64Bound : Int := 9223372036854775808

/-- Whether an integer is an `i64` value. -/
def InI64 (n : Int) : Prop := -i64Bound ≤ n ∧ n < i64Bound

instance (n : Int) : Decidable (InI64 n) := inferInstanceAs (Decidable (_ ∧ _))

/-- `u64 as i64`. -/
def asI64 (n : UInt64) : Int :=
  if (n.toNat : Int) < i64Bound then n.toNat else n.toNat - 2 * i64Bound

theorem asI64_of_lt {n : UInt64} (h : (n.toNat : Int) < i64Bound) : asI64 n = n.toNat :=
  if_pos h

theorem asI64_inI64 (n : UInt64) : InI64 (asI64 n) := by
  have hn := n.toNat_lt
  unfold asI64 InI64 i64Bound
  split_ifs <;> omega

/-- The cast keeps the value modulo `2 ^ 64`. -/
theorem asI64_emod (n : UInt64) : asI64 n % (2 * i64Bound) = n.toNat := by
  have hn := n.toNat_lt
  unfold asI64 i64Bound
  split_ifs <;> omega

/-- `i64` addition wraps: the `i64` value congruent to an integer. -/
def wrapI64 (x : Int) : Int :=
  let r := x % (2 * i64Bound)
  if r < i64Bound then r else r - 2 * i64Bound

theorem wrapI64_inI64 (x : Int) : InI64 (wrapI64 x) := by
  unfold wrapI64 InI64 i64Bound
  simp only
  split_ifs <;> omega

theorem wrapI64_emod (x : Int) : wrapI64 x % (2 * i64Bound) = x % (2 * i64Bound) := by
  unfold wrapI64 i64Bound
  simp only
  split_ifs <;> omega

/-- Two `i64` values that agree modulo `2 ^ 64` are equal. -/
theorem InI64.eq_of_emod {a b : Int} (ha : InI64 a) (hb : InI64 b)
    (h : a % (2 * i64Bound) = b % (2 * i64Bound)) : a = b := by
  unfold InI64 i64Bound at *
  omega

theorem wrapI64_of_inI64 {x : Int} (h : InI64 x) : wrapI64 x = x :=
  (wrapI64_inI64 x).eq_of_emod h (wrapI64_emod x)

/-! ## Trace references

A hex id of a W3C length is case-insensitive and is stored in lower case; any other id is
the caller's own and is kept as it is.
-/

/-- `MAX_TRACE_REF_LEN`. -/
def MAX_TRACE_REF_LEN : ℕ := 128

/-- `trace_ref_within_bound`. -/
def traceRefWithinBound (id : String) : Bool := decide (id.length ≤ MAX_TRACE_REF_LEN)

/-- `char::is_ascii_hexdigit`. -/
def isAsciiHexdigit (c : Char) : Bool :=
  ('0' ≤ c && c ≤ '9') || ('a' ≤ c && c ≤ 'f') || ('A' ≤ c && c ≤ 'F')

/-- `normalize_trace_ref`. -/
def normalizeTraceRef (id : String) : String :=
  let isW3cHex := (id.utf8ByteSize == 16 || id.utf8ByteSize == 32) && id.toList.all isAsciiHexdigit
  if isW3cHex then toAsciiLowercase id else id

example : normalizeTraceRef "5B8EFFF798038103D269B633813FC60C" = "5b8efff798038103d269b633813fc60c" ∧
    normalizeTraceRef "Order-7" = "Order-7" := by decide +kernel

end LightTrack
