import LightTrack.Core.Event

/-! # The ingest validation policy

The checks an event passes at the door: a model, bounded trace references, a cached token
count within the input it is part of, and a client timestamp near the server's clock.  The
first failing check is the one reported.
-/

namespace LightTrack

/-- The error codes the ingest doors answer with. -/
inductive ErrorCode where
  | badRequest
  | tsTooOld
  | tsTooNew
  | usageSubcountExceedsTotal
  | forbidden
  | projectDisabled
  | conflict
  | rateLimited
  | internal
  deriving DecidableEq

namespace ErrorCode

/-- The code on the wire. -/
def asStr : ErrorCode → String
  | badRequest => "bad_request"
  | tsTooOld => "ts_too_old"
  | tsTooNew => "ts_too_new"
  | usageSubcountExceedsTotal => "usage_subcount_exceeds_total"
  | forbidden => "forbidden"
  | projectDisabled => "project_disabled"
  | conflict => "conflict"
  | rateLimited => "rate_limited"
  | internal => "internal"

/-- No two codes share a spelling. -/
theorem asStr_injective : Function.Injective asStr := by
  intro a b h
  cases a <;> cases b <;> first | rfl | (revert h; decide +kernel)

end ErrorCode

/-- A validation failure. -/
structure Rejection where
  code : ErrorCode
  message : String
  deriving DecidableEq

/-! ## The checks -/

/-- `SubcountOverflow` as text. -/
def subcountOverflowText (u : TokenUsage) : String :=
  "`usage.cached_input` (" ++ toString u.cachedTokens ++ ") exceeds `usage.input` (" ++
    toString u.input ++ ") by " ++ toString (u.cachedTokens.toNat - u.input.toNat) ++
    " token(s); `cached_input` is the part of the prompt served from cache — a subset of " ++
    "`input`, never an addition"

/-- `events_validate_usage::check`. -/
def checkUsage (ev : LlmEvent) (enforcing : Bool) : Except Rejection Unit :=
  if ev.usage.checkSubcounts || !enforcing then .ok ()
  else .error ⟨.usageSubcountExceedsTotal, subcountOverflowText ev.usage ++
    ". Add the provider's cache counters into `usage.input` before sending (see the LightTrack " ++
    "SDK extractors), or set LIGHTTRACK_CHECK_USAGE_SUBCOUNTS=0 to accept the record " ++
    "unpriced-at-the-input-rate anyway"⟩

/-- One trace reference against its bound. -/
def checkTraceRef (field : String) (value : Option String) : Except Rejection Unit :=
  match value with
  | some v =>
    if traceRefWithinBound v then .ok ()
    else .error ⟨.badRequest, "`" ++ field ++ "` must be at most " ++ toString MAX_TRACE_REF_LEN ++
      " characters (got " ++ toString v.length ++ ")"⟩
  | none => .ok ()

/-- `IngestPolicy`: a bound of zero seconds is no bound. -/
structure IngestPolicy where
  maxFutureSecs : Int := 300
  maxPastSecs : Int := 7 * 24 * 3600
  checkUsageSubcounts : Bool := true

namespace IngestPolicy

/-- The skew of `ts` against the two bounds. -/
def checkSkew (p : IngestPolicy) (ev : LlmEvent) (now : Time) : Except Rejection Unit :=
  let delta := Time.numSeconds (ev.ts - now)
  if 0 < p.maxFutureSecs ∧ p.maxFutureSecs < delta then
    .error ⟨.tsTooNew, "`ts` is " ++ toString delta ++ "s ahead of server time, beyond the allowed " ++
      toString p.maxFutureSecs ++ "s future skew (see LIGHTTRACK_MAX_TS_SKEW_FUTURE_SECS)"⟩
  else if 0 < p.maxPastSecs ∧ p.maxPastSecs < -delta then
    .error ⟨.tsTooOld, "`ts` is " ++ toString (-delta) ++ "s behind server time, beyond the allowed " ++
      toString p.maxPastSecs ++ "s past skew (see LIGHTTRACK_MAX_TS_SKEW_PAST_SECS)"⟩
  else .ok ()

/-- `IngestPolicy::validate`. -/
def validate (p : IngestPolicy) (ev : LlmEvent) (now : Time) : Except Rejection Unit :=
  if isBlank ev.model then .error ⟨.badRequest, "`model` must not be empty"⟩
  else do
    checkTraceRef "trace_id" ev.traceId
    checkTraceRef "span_id" ev.spanId
    checkTraceRef "parent_span_id" ev.parentSpanId
    checkUsage ev p.checkUsageSubcounts
    p.checkSkew ev now

end IngestPolicy

/-! ## What is accepted -/

/-- The trace references of an event are within their bound. -/
def LlmEvent.RefsBounded (ev : LlmEvent) : Prop :=
  ∀ v, ev.traceId = some v ∨ ev.spanId = some v ∨ ev.parentSpanId = some v →
    traceRefWithinBound v = true

theorem checkTraceRef_eq_ok_iff {field : String} {value : Option String} :
    checkTraceRef field value = .ok () ↔ ∀ v, value = some v → traceRefWithinBound v = true := by
  cases value with
  | none => simp [checkTraceRef]
  | some v => simp [checkTraceRef]

theorem checkUsage_eq_ok_iff {ev : LlmEvent} {enforcing : Bool} :
    checkUsage ev enforcing = .ok () ↔ (enforcing = true → ev.usage.checkSubcounts = true) := by
  unfold checkUsage
  cases enforcing <;> simp

theorem except_bind_eq_ok_iff {ε : Type*} {x y : Except ε Unit} :
    (x >>= fun _ => y) = .ok () ↔ x = .ok () ∧ y = .ok () := by
  cases x with
  | ok _ => simp [bind, Except.bind]
  | error e => simp [bind, Except.bind]

namespace IngestPolicy

theorem checkSkew_eq_ok_iff {p : IngestPolicy} {ev : LlmEvent} {now : Time} :
    p.checkSkew ev now = .ok () ↔
      (0 < p.maxFutureSecs → Time.numSeconds (ev.ts - now) ≤ p.maxFutureSecs) ∧
        (0 < p.maxPastSecs → -Time.numSeconds (ev.ts - now) ≤ p.maxPastSecs) := by
  unfold checkSkew
  simp only
  split_ifs with hfuture hpast
  · simp only [false_iff]
    intro h
    have := h.1 hfuture.1
    omega
  · simp only [false_iff]
    intro h
    have := h.2 hpast.1
    omega
  · refine iff_of_true rfl ⟨fun h => ?_, fun h => ?_⟩
    · by_contra hlt
      exact hfuture ⟨h, by omega⟩
    · by_contra hlt
      exact hpast ⟨h, by omega⟩

/-- An event is accepted exactly when it passes every check. -/
theorem validate_eq_ok_iff {p : IngestPolicy} {ev : LlmEvent} {now : Time} :
    p.validate ev now = .ok () ↔
      isBlank ev.model = false ∧ ev.RefsBounded ∧
        (p.checkUsageSubcounts = true → ev.usage.checkSubcounts = true) ∧
        p.checkSkew ev now = .ok () := by
  unfold validate
  by_cases hblank : isBlank ev.model = true
  · rw [if_pos hblank]
    simp [hblank]
  · rw [if_neg hblank, except_bind_eq_ok_iff, except_bind_eq_ok_iff, except_bind_eq_ok_iff,
      except_bind_eq_ok_iff, checkTraceRef_eq_ok_iff, checkTraceRef_eq_ok_iff,
      checkTraceRef_eq_ok_iff, checkUsage_eq_ok_iff]
    constructor
    · rintro ⟨htrace, hspan, hparent, husage, hskew⟩
      refine ⟨by simpa using hblank, ?_, husage, hskew⟩
      rintro v (h | h | h)
      · exact htrace v h
      · exact hspan v h
      · exact hparent v h
    · rintro ⟨-, hrefs, husage, hskew⟩
      exact ⟨fun v h => hrefs v (.inl h), fun v h => hrefs v (.inr (.inl h)),
        fun v h => hrefs v (.inr (.inr h)), husage, hskew⟩

end IngestPolicy

end LightTrack
