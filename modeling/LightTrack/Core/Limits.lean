import LightTrack.Core.Event
import Mathlib.Algebra.Order.Floor.Defs
import Mathlib.Algebra.Order.Ring.Rat
import Mathlib.Data.Rat.Floor
import Mathlib.Order.WithBot

/-! # Limits: rules, scopes, thresholds and their evaluation

The rule vocabulary and the pure evaluation of one rule against a current value.
A threshold that could not be measured is `⊤` (`+inf`): nothing breaches it.

* `LimitScope.matches` : which traffic a scope covers,
* `LimitRule.evaluateResolvedAt` : one rule against one value,
* `LimitStatus.rejectsIngest`, `LimitStatus.sheds` : the two ways a status turns
  an event away.
-/

namespace LightTrack

/-- What a limit measures over its window. -/
inductive LimitMetric where
  | costUsd
  | calls
  | tokens
  deriving DecidableEq

/-- Rolling window a limit is evaluated over. -/
inductive LimitWindow where
  | hour
  | day
  | month
  deriving DecidableEq

namespace LimitWindow

/-- Advisory retry delay of a hard stop, in seconds. -/
def retryAfterSecs : LimitWindow → Nat
  | hour => 30
  | day => 300
  | month => 900

/-- Rolling look-back duration. -/
def lookback : LimitWindow → Int
  | hour => 3600 * Time.second
  | day => 86400 * Time.second
  | month => 30 * 86400 * Time.second

/-- The start of the rolling window relative to `now`. -/
def since (w : LimitWindow) (now : Time) : Time := now - w.lookback

theorem since_mono (w : LimitWindow) {t t' : Time} (h : t ≤ t') : w.since t ≤ w.since t' :=
  Int.sub_le_sub_right h _

theorem lookback_pos (w : LimitWindow) : 0 < w.lookback := by
  cases w <;> decide

theorem since_le (w : LimitWindow) (now : Time) : w.since now ≤ now :=
  Int.sub_le_self _ w.lookback_pos.le

theorem numSeconds_lookback_injective {w w' : LimitWindow}
    (h : Time.numSeconds w.lookback = Time.numSeconds w'.lookback) : w = w' := by
  revert h
  cases w <;> cases w' <;> decide

end LimitWindow

/-- What happens as a limit is approached and breached. -/
inductive LimitAction where
  | alert
  | throttle
  | block
  deriving DecidableEq

namespace LimitAction

/-- Whether breaching a rule with this action rejects ingest. -/
def enforces : LimitAction → Bool
  | alert => false
  | throttle => true
  | block => true

/-- Whether this action sheds traffic before the threshold. -/
def sheds : LimitAction → Bool
  | throttle => true
  | _ => false

end LimitAction

/-! ## Scopes -/

/-- The dimension a limit is scoped to, with the scoped value. -/
inductive LimitScope where
  | provider (v : String)
  | model (v : String)
  | name (v : String)
  | apiKey (v : String)
  | customer (v : String)
  deriving DecidableEq

namespace LimitScope

/-- The scoped value. -/
def value : LimitScope → String
  | provider v | model v | name v | apiKey v | customer v => v

/-- `kind_str`. -/
def kindStr : LimitScope → String
  | provider _ => "provider"
  | model _ => "model"
  | name _ => "name"
  | apiKey _ => "api_key"
  | customer _ => "customer"

/-- Whether an event with these dimensions falls under this scope. A dimension the
event does not carry never matches. -/
def «matches» (s : LimitScope) (d : ScopeDims) : Bool :=
  match s with
  | provider v => d.provider == v
  | model v =>
    d.model == v || (canonicalize d.provider d.model).family == (canonicalize d.provider v).family
  | name v => d.name == some v
  | apiKey v => d.apiKeyId == some v
  | customer v => d.customerId == some v

/-- Whether membership is wider than equality on the stored value. -/
def foldsCanonicalFamily : LimitScope → Bool
  | model _ => true
  | _ => false

/-- `LimitScope::matches` for a caller holding only a `(provider, model)` pair. -/
def matchesModelRow (s : LimitScope) (provider model : String) : Bool :=
  s.matches (ScopeDims.new provider model none)

end LimitScope

/-- Whether an optional scope admits an event with these dimensions. -/
def scopeMatches (scope : Option LimitScope) (dims : ScopeDims) : Bool :=
  scope.all fun s => s.matches dims

@[simp] theorem scopeMatches_none (dims : ScopeDims) : scopeMatches none dims = true := rfl

@[simp] theorem scopeMatches_some (s : LimitScope) (dims : ScopeDims) :
    scopeMatches (some s) dims = s.matches dims := rfl

/-! ## Thresholds -/

/-- What a rule's limit is: a constant, or a share (in percent) of recognized revenue. -/
inductive Threshold where
  | fixed (v : ℚ)
  | revenueShare (pct : ℚ)
  deriving DecidableEq

/-- How a threshold was arrived at. -/
inductive ThresholdBasis where
  | fixed
  | revenueShare (revenueUsd pct : ℚ)
  | unknown (pct : ℚ)
  deriving DecidableEq

/-- Resolve to the number a rule evaluates against. Revenue that could not be measured
resolves to `+inf`. -/
def Threshold.resolve (t : Threshold) (revenueUsd : Option ℚ) : WithTop ℚ × ThresholdBasis :=
  match t with
  | .fixed v => (v, .fixed)
  | .revenueShare pct =>
    match revenueUsd with
    | some rev => (↑(rev * pct / 100), .revenueShare rev pct)
    | none => (⊤, .unknown pct)

/-- An action (`Escalation::to`) that shadows the configured one for a while. -/
structure Escalation where
  onEtaDays : ℚ
  target : LimitAction
  forHours : Nat
  deriving DecidableEq

/-! ## Rules -/

/-- A per-project limit. -/
structure LimitRule where
  id : String
  projectId : String
  metric : LimitMetric
  window : LimitWindow
  threshold : Threshold
  action : LimitAction
  enabled : Bool := true
  warnAt : Option ℚ := none
  scope : Option LimitScope := none
  escalation : Option Escalation := none
  escalatedUntil : Option Time := none
  origin : Option String := none
  expiresAt : Option Time := none
  deriving DecidableEq

/-- Provenance of the cost figure a cost rule was evaluated against. -/
structure CostEvidence where
  pricedCalls : Int
  unpricedCalls : Int
  imputedCostUsd : ℚ
  clientReportedCostUsd : ℚ
  unpriceable : Bool
  deriving DecidableEq

/-- Result of evaluating a rule against a current rolling value. -/
structure LimitStatus where
  ruleId : String
  projectId : String
  metric : LimitMetric
  window : LimitWindow
  action : LimitAction
  current : ℚ
  threshold : WithTop ℚ
  breached : Bool
  ratio : WithTop ℚ
  warnAt : Option ℚ
  warning : Bool
  scope : Option LimitScope
  basis : ThresholdBasis
  costEvidence : Option CostEvidence
  shedFraction : ℚ
  shedding : Bool
  deriving DecidableEq

/-- `f64::clamp(0.0, 1.0)`. -/
def clamp01 (x : ℚ) : ℚ := max 0 (min 1 x)

namespace LimitRule

/-- Ratio at which a `throttle` rule starts shedding when it sets no `warnAt`. -/
def DEFAULT_THROTTLE_START : ℚ := 4 / 5

/-- The usage ratio at which a `throttle` rule begins shedding. -/
def throttleStart (r : LimitRule) : ℚ :=
  (r.warnAt.filter fun w => 0 < w && w < 1).getD DEFAULT_THROTTLE_START

/-- The action in force: the configured one, or the escalation's while it is live. -/
def effectiveActionAt (r : LimitRule) (now : Time) : LimitAction :=
  match r.escalation, r.escalatedUntil with
  | some e, some until_ => if now < until_ then e.target else r.action
  | _, _ => r.action

/-- Whether this rule counts at all right now. -/
def isActiveAt (r : LimitRule) (now : Time) : Bool :=
  r.enabled && r.expiresAt.all fun e => now < e

/-- Evaluate the rule against `current` and an already-resolved threshold. -/
def evaluateResolvedAt (r : LimitRule) (current : ℚ) (threshold : WithTop ℚ)
    (basis : ThresholdBasis) (costEvidence : Option CostEvidence) (now : Time) : LimitStatus :=
  let action := r.effectiveActionAt now
  -- `current / threshold` for a positive threshold (0 against `+inf`), `+inf` otherwise
  let ratio : WithTop ℚ :=
    match threshold with
    | ⊤ => ((0 : ℚ) : WithTop ℚ)
    | (t : ℚ) => if 0 < t then ↑(current / t) else ⊤
  let breached : Bool := decide (threshold ≤ current)
  let warning := !breached && r.warnAt.any fun w => decide ((w : WithTop ℚ) ≤ ratio)
  let shedFraction : ℚ :=
    if !action.sheds then 0
    else if breached then 1
    else
      match ratio with
      | ⊤ => 1
      | (q : ℚ) => clamp01 ((q - r.throttleStart) / (1 - r.throttleStart))
  { ruleId := r.id, projectId := r.projectId, metric := r.metric, window := r.window, action,
    current, threshold, breached, ratio, warnAt := r.warnAt, warning, scope := r.scope, basis,
    costEvidence, shedFraction, shedding := false }

end LimitRule

/-! ## The shed lottery -/

/-- The UTF-8 bytes of a string. -/
def utf8Bytes (s : String) : List UInt8 := s.toList.flatMap String.utf8EncodeChar

/-- Map `(rule, event)` to a stable point in `[0, 1)`: FNV-1a over the two ids, then the
SplitMix64 avalanche, of which the top 53 bits count. -/
def shedTicket (ruleId eventId : String) : ℚ :=
  let bytes := utf8Bytes ruleId ++ [0x1f] ++ utf8Bytes eventId
  let h := bytes.foldl (fun h b => (h ^^^ b.toUInt64) * 0x1000000001b3) (0xcbf29ce484222325 : UInt64)
  let h := h ^^^ (h >>> 30)
  let h := h * 0xbf58476d1ce4e5b9
  let h := h ^^^ (h >>> 27)
  let h := h * 0x94d049bb133111eb
  let h := h ^^^ (h >>> 31)
  ((h >>> 11).toNat : ℚ) / 9007199254740992

example : |shedTicket "rule-hot" "ev-1" - 460697918405395 / 10 ^ 17| < 1 / 10 ^ 16 := by
  decide +kernel

namespace LimitStatus

/-- Whether this status is a cost cap with no priceable evidence behind it. -/
def unpriceable (s : LimitStatus) : Bool := s.costEvidence.any CostEvidence.unpriceable

/-- A hard stop: an enforcing rule that is breached or cannot be measured. -/
def rejectsIngest (s : LimitStatus) : Bool :=
  s.action.enforces && (s.breached || s.unpriceable)

/-- Whether graduated throttling sheds the event identified by `eventId`. -/
def sheds (s : LimitStatus) (eventId : String) : Bool :=
  !s.breached && decide (0 < s.shedFraction) &&
    decide (shedTicket s.ruleId eventId < s.shedFraction)

/-- Seconds a client should wait after this status turned an event away. -/
def retryAfterSecs (s : LimitStatus) : Nat :=
  if s.breached || s.unpriceable then s.window.retryAfterSecs
  else 1 + ⌈14 * clamp01 s.shedFraction⌉.toNat

end LimitStatus

end LightTrack
