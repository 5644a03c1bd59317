import LightTrack.Core.Clock
import LightTrack.Lib.Extremum
import LightTrack.Lib.Traverse
import Mathlib.Algebra.BigOperators.Group.List.Basic
import Mathlib.Algebra.Order.Ring.Rat
import Mathlib.Data.List.MinMax
import Mathlib.Order.Interval.Set.Basic

/-! # The shape of a trace

The two numbers the list and the detail view of a trace must agree on, its duration and its status,
are computed in one place; the list builds the shape from a SQL aggregate, the detail by folding the
events.

* `ofEvents_eq_ok_iff` : when the shape of events can be computed, and as what,
* `totalsOf_eq_ok_iff` : when the totals can.
-/

namespace LightTrack

/-! ## The shape -/

/-- `TraceShape`. -/
structure TraceShape where
  startedAt : Time
  lastFinish : Time
  errors : ℕ

namespace TraceShape

/-- Where a span ends. -/
def spanEnd (ev : LlmEvent) : Except Overflow Time :=
  Time.addMillis ev.ts (asI64 (ev.latencyMs.getD 0))

/-- `TraceShape::of_events`. -/
def ofEvents (events : List LlmEvent) : Except Overflow (Option TraceShape) :=
  match (events.map LlmEvent.ts).min? with
  | none => .ok none
  | some startedAt => do
    let ends ← events.mapM spanEnd
    return some
      { startedAt
        lastFinish := ends.max?.getD startedAt
        errors := events.countP fun ev => ev.status != .success }

/-- `TraceShape::duration_ms`: both ends are truncated before subtracting. -/
def durationMs (s : TraceShape) : Int :=
  max (Time.timestampMillis s.lastFinish - Time.timestampMillis s.startedAt) 0

/-- `TraceShape::status`. -/
def status (s : TraceShape) : String := if 0 < s.errors then "error" else "success"

end TraceShape

/-- A span ends at an instant, counted without overflow. -/
def EndFits (ev : LlmEvent) : Prop :=
  -2 ^ 63 < asI64 (ev.latencyMs.getD 0) ∧
    Time.InUtc (ev.ts + asI64 (ev.latencyMs.getD 0) * Time.millisecond)

/-- The shape of a trace whose spans all end. -/
def exactShape (events : List LlmEvent) : TraceShape where
  startedAt := (events.map LlmEvent.ts).min?.getD 0
  lastFinish := (events.map fun ev =>
    ev.ts + asI64 (ev.latencyMs.getD 0) * Time.millisecond).max?.getD 0
  errors := events.countP fun ev => ev.status != .success

/-- **The shape of events** can be computed exactly when every span ends at an instant. -/
theorem ofEvents_eq_ok_iff {events : List LlmEvent} {shape : TraceShape} :
    TraceShape.ofEvents events = .ok (some shape) ↔
      events ≠ [] ∧ (∀ ev ∈ events, EndFits ev) ∧ shape = exactShape events := by
  unfold TraceShape.ofEvents exactShape
  cases hmin : (events.map LlmEvent.ts).min? with
  | none =>
    rw [List.min?_eq_none_iff, List.map_eq_nil_iff] at hmin
    simp [hmin]
  | some startedAt =>
    have hne : events ≠ [] := by
      rintro rfl
      cases hmin
    have hends : ∀ (ev : LlmEvent) (t : Time), TraceShape.spanEnd ev = .ok t ↔
        EndFits ev ∧ t = ev.ts + asI64 (ev.latencyMs.getD 0) * Time.millisecond :=
      fun ev t => Time.addMillis_eq_ok_iff
    have hlast : ((events.map fun ev =>
        ev.ts + asI64 (ev.latencyMs.getD 0) * Time.millisecond).max?.getD startedAt) =
        (events.map fun ev =>
          ev.ts + asI64 (ev.latencyMs.getD 0) * Time.millisecond).max?.getD 0 := by
      cases hmax : (events.map fun ev =>
          ev.ts + asI64 (ev.latencyMs.getD 0) * Time.millisecond).max? with
      | none =>
        rw [List.max?_eq_none_iff, List.map_eq_nil_iff] at hmax
        exact absurd hmax hne
      | some t => rfl
    simp only [Traverse.bind_eq_ok_iff, Traverse.mapM_eq_map_iff hends, pure, Except.pure,
      Except.ok.injEq, Option.some.injEq, Option.getD_some]
    constructor
    · rintro ⟨_, ⟨hall, rfl⟩, rfl⟩
      exact ⟨hne, hall, by rw [hlast]⟩
    · rintro ⟨-, hall, rfl⟩
      exact ⟨_, ⟨hall, rfl⟩, by rw [hlast]⟩

/-! ## Totals -/

/-- `TraceTotals`. -/
structure TraceTotals where
  spans : ℕ
  costUsd : ℚ := 0
  inputTokens : UInt64 := 0
  outputTokens : UInt64 := 0
  totalTokens : UInt64 := 0
  errors : ℕ := 0
  totalLatencyMs : UInt64 := 0
  unpricedSpans : ℕ := 0
  deriving DecidableEq

/-- One round of `totals_of`. -/
def TraceTotals.addSpan (checks : Bool) (t : TraceTotals) (ev : LlmEvent) :
    Except Overflow TraceTotals := do
  let inputTokens ← addU64 checks t.inputTokens ev.usage.input
  let outputTokens ← addU64 checks t.outputTokens ev.usage.output
  let totalLatencyMs ← addU64 checks t.totalLatencyMs (ev.latencyMs.getD 0)
  return { t with
    unpricedSpans := t.unpricedSpans + if ev.costUsd.isNone then 1 else 0
    costUsd := t.costUsd + ev.costUsd.getD 0
    inputTokens, outputTokens, totalLatencyMs
    errors := t.errors + if ev.status != .success then 1 else 0 }

/-- `totals_of`. -/
def totalsOf (checks : Bool) (events : List LlmEvent) : Except Overflow TraceTotals := do
  let t ← events.foldlM (TraceTotals.addSpan checks) { spans := events.length }
  let totalTokens ← addU64 checks t.inputTokens t.outputTokens
  return { t with totalTokens }

/-- The counters of a trace add up below `2 ^ 64`. -/
structure TotalsFit (events : List LlmEvent) : Prop where
  input : (events.map fun ev => ev.usage.input.toNat).sum < 2 ^ 64
  output : (events.map fun ev => ev.usage.output.toNat).sum < 2 ^ 64
  latency : (events.map fun ev => (ev.latencyMs.getD 0).toNat).sum < 2 ^ 64
  total : (events.map fun ev => ev.usage.input.toNat).sum +
    (events.map fun ev => ev.usage.output.toNat).sum < 2 ^ 64

/-- The totals of a trace whose counters add up. -/
def exactTotals (events : List LlmEvent) : TraceTotals where
  spans := events.length
  costUsd := (events.map fun ev => ev.costUsd.getD 0).sum
  inputTokens := UInt64.ofNat (events.map fun ev => ev.usage.input.toNat).sum
  outputTokens := UInt64.ofNat (events.map fun ev => ev.usage.output.toNat).sum
  totalTokens := UInt64.ofNat ((events.map fun ev => ev.usage.input.toNat).sum +
    (events.map fun ev => ev.usage.output.toNat).sum)
  errors := events.countP fun ev => ev.status != .success
  totalLatencyMs := UInt64.ofNat (events.map fun ev => (ev.latencyMs.getD 0).toNat).sum
  unpricedSpans := events.countP fun ev => ev.costUsd.isNone

/-- What some events add to totals. -/
structure AddsUp (events : List LlmEvent) (t t' : TraceTotals) : Prop where
  input : t'.inputTokens.toNat =
    t.inputTokens.toNat + (events.map fun ev => ev.usage.input.toNat).sum
  output : t'.outputTokens.toNat =
    t.outputTokens.toNat + (events.map fun ev => ev.usage.output.toNat).sum
  latency : t'.totalLatencyMs.toNat =
    t.totalLatencyMs.toNat + (events.map fun ev => (ev.latencyMs.getD 0).toNat).sum
  cost : t'.costUsd = t.costUsd + (events.map fun ev => ev.costUsd.getD 0).sum
  errors : t'.errors = t.errors + events.countP fun ev => ev.status != .success
  unpriced : t'.unpricedSpans = t.unpricedSpans + events.countP fun ev => ev.costUsd.isNone
  spans : t'.spans = t.spans
  total : t'.totalTokens = t.totalTokens

theorem AddsUp.eq {events : List LlmEvent} {t t₁ t₂ : TraceTotals} (h : AddsUp events t t₁)
    (h' : AddsUp events t t₂) : t₁ = t₂ := by
  rcases h with ⟨hi, ho, hl, hcost, herrors, hunpriced, hspans, htotal⟩
  rcases h' with ⟨hi', ho', hl', hcost', herrors', hunpriced', hspans', htotal'⟩
  have hinput := UInt64.toNat_inj.1 (hi.trans hi'.symm)
  have houtput := UInt64.toNat_inj.1 (ho.trans ho'.symm)
  have hlatency := UInt64.toNat_inj.1 (hl.trans hl'.symm)
  cases t₁
  cases t₂
  simp only at *
  rw [hinput, houtput, hlatency, hcost, hcost', herrors, herrors', hunpriced, hunpriced', hspans,
    hspans', htotal, htotal']

/-- One round adds its span, as long as no counter overflows. -/
theorem addSpan_eq_ok_iff {t t' : TraceTotals} {ev : LlmEvent} :
    TraceTotals.addSpan true t ev = .ok t' ↔ AddsUp [ev] t t' := by
  unfold TraceTotals.addSpan
  simp only [Traverse.bind_eq_ok_iff, addU64_checked_iff, pure, Except.pure, Except.ok.injEq]
  constructor
  · rintro ⟨i, hi, o, ho, l, hl, rfl⟩
    constructor <;> simp [hi, ho, hl, List.countP_cons]
  · intro h
    refine ⟨t'.inputTokens, by simpa using h.input, t'.outputTokens, by simpa using h.output,
      t'.totalLatencyMs, by simpa using h.latency, ?_⟩
    refine @AddsUp.eq [ev] t _ _ ?_ h
    constructor
    · exact h.input
    · exact h.output
    · exact h.latency
    all_goals simp [List.countP_cons]

/-- What one event adds, and then what the others do. -/
theorem AddsUp.cons {ev : LlmEvent} {events : List LlmEvent} {t t₁ t' : TraceTotals}
    (h : AddsUp [ev] t t₁) (h' : AddsUp events t₁ t') : AddsUp (ev :: events) t t' := by
  constructor
  · rw [h'.input, h.input]
    simp [add_assoc]
  · rw [h'.output, h.output]
    simp [add_assoc]
  · rw [h'.latency, h.latency]
    simp [add_assoc]
  · rw [h'.cost, h.cost]
    simp [add_assoc]
  · rw [h'.errors, h.errors, List.countP_cons, List.countP_cons]
    simp only [List.countP_nil]
    omega
  · rw [h'.unpriced, h.unpriced, List.countP_cons, List.countP_cons]
    simp only [List.countP_nil]
    omega
  · rw [h'.spans, h.spans]
  · rw [h'.total, h.total]

/-- Totals that are reached with every event are reached by way of the first: no counter is larger
on the way. -/
theorem AddsUp.split {ev : LlmEvent} {events : List LlmEvent} {t t' : TraceTotals}
    (h : AddsUp (ev :: events) t t') : ∃ t₁, AddsUp [ev] t t₁ ∧ AddsUp events t₁ t' := by
  rcases h with ⟨hi, ho, hl, hcost, herrors, hunpriced, hspans, htotal⟩
  rw [List.map_cons, List.sum_cons] at hi ho hl hcost
  rw [List.countP_cons] at herrors hunpriced
  have hlt := t'.inputTokens.toNat_lt
  have hltOut := t'.outputTokens.toNat_lt
  have hltLat := t'.totalLatencyMs.toNat_lt
  -- the totals after the first span
  have hi₁ : (UInt64.ofNat (t.inputTokens.toNat + ev.usage.input.toNat)).toNat =
      t.inputTokens.toNat + ev.usage.input.toNat := toNat_ofNat_of_lt (by omega)
  have ho₁ : (UInt64.ofNat (t.outputTokens.toNat + ev.usage.output.toNat)).toNat =
      t.outputTokens.toNat + ev.usage.output.toNat := toNat_ofNat_of_lt (by omega)
  have hl₁ : (UInt64.ofNat (t.totalLatencyMs.toNat + (ev.latencyMs.getD 0).toNat)).toNat =
      t.totalLatencyMs.toNat + (ev.latencyMs.getD 0).toNat :=
    toNat_ofNat_of_lt (by omega)
  refine ⟨{ t with
    inputTokens := UInt64.ofNat (t.inputTokens.toNat + ev.usage.input.toNat)
    outputTokens := UInt64.ofNat (t.outputTokens.toNat + ev.usage.output.toNat)
    totalLatencyMs := UInt64.ofNat (t.totalLatencyMs.toNat + (ev.latencyMs.getD 0).toNat)
    costUsd := t.costUsd + ev.costUsd.getD 0
    errors := t.errors + (if ev.status != .success then 1 else 0)
    unpricedSpans := t.unpricedSpans + (if ev.costUsd.isNone then 1 else 0) }, ?_, ?_⟩
  · constructor
    · simpa using hi₁
    · simpa using ho₁
    · simpa using hl₁
    all_goals simp [List.countP_cons]
  · constructor
    · dsimp only
      omega
    · dsimp only
      omega
    · dsimp only
      omega
    · dsimp only
      rw [hcost, add_assoc]
    · dsimp only
      omega
    · dsimp only
      omega
    · exact hspans
    · exact htotal

/-- The rounds of `totals_of` add every span, as long as no counter overflows. -/
theorem foldlM_addSpan_iff {events : List LlmEvent} {t t' : TraceTotals} :
    events.foldlM (TraceTotals.addSpan true) t = .ok t' ↔ AddsUp events t t' := by
  induction events generalizing t with
  | nil =>
    rw [List.foldlM_nil]
    have hnil : AddsUp [] t t := by
      constructor <;> simp
    constructor
    · intro h
      rw [← Except.ok.inj h]
      exact hnil
    · intro h
      rw [h.eq hnil]
      rfl
  | cons ev events ih =>
    rw [List.foldlM_cons, Traverse.bind_eq_ok_iff]
    simp only [addSpan_eq_ok_iff, ih]
    constructor
    · rintro ⟨t₁, h, h'⟩
      exact h.cons h'
    · exact AddsUp.split

/-- **The totals of events** can be computed exactly when the counters add up, and are exact. -/
theorem totalsOf_eq_ok_iff {events : List LlmEvent} {t : TraceTotals} :
    totalsOf true events = .ok t ↔ TotalsFit events ∧ t = exactTotals events := by
  unfold totalsOf
  simp only [Traverse.bind_eq_ok_iff, foldlM_addSpan_iff, addU64_checked_iff, pure, Except.pure,
    Except.ok.injEq]
  constructor
  · rintro ⟨t₁, ⟨hi, ho, hl, hcost, herrors, hunpriced, hspans, -⟩, total, htotal, rfl⟩
    simp only [UInt64.toNat_zero, zero_add] at hi ho hl hcost herrors hunpriced
    have hlt := t₁.inputTokens.toNat_lt
    have hltOut := t₁.outputTokens.toNat_lt
    have hltLat := t₁.totalLatencyMs.toNat_lt
    have hltTotal := total.toNat_lt
    refine ⟨⟨by omega, by omega, by omega, by omega⟩, ?_⟩
    unfold exactTotals
    rw [← hi, ← ho, ← hl, ← htotal, ← hcost, ← herrors, ← hunpriced, hspans]
    simp only [UInt64.ofNat_toNat]
  · rintro ⟨hfit, rfl⟩
    have hi : (exactTotals events).inputTokens.toNat =
        (events.map fun ev => ev.usage.input.toNat).sum := toNat_ofNat_of_lt hfit.input
    have ho : (exactTotals events).outputTokens.toNat =
        (events.map fun ev => ev.usage.output.toNat).sum := toNat_ofNat_of_lt hfit.output
    have hl : (exactTotals events).totalLatencyMs.toNat =
        (events.map fun ev => (ev.latencyMs.getD 0).toNat).sum :=
      toNat_ofNat_of_lt hfit.latency
    have htotal : (exactTotals events).totalTokens.toNat =
        (events.map fun ev => ev.usage.input.toNat).sum +
          (events.map fun ev => ev.usage.output.toNat).sum := toNat_ofNat_of_lt hfit.total
    refine ⟨{ exactTotals events with totalTokens := 0 }, ?_, (exactTotals events).totalTokens, ?_,
      rfl⟩
    · constructor
      · simpa using hi
      · simpa using ho
      · simpa using hl
      all_goals simp [exactTotals]
    · rw [htotal, hi, ho]

/-! ## Orders -/

/-- The shape does not depend on the order of the events. -/
theorem exactShape_perm {events events' : List LlmEvent} (h : events.Perm events') :
    exactShape events = exactShape events' := by
  unfold exactShape
  rw [Extremum.min?_perm (h.map _), Extremum.max?_perm (h.map _), h.countP_eq]

theorem TotalsFit.perm {events events' : List LlmEvent} (h : events.Perm events')
    (hfit : TotalsFit events) : TotalsFit events' := by
  rcases hfit with ⟨hinput, houtput, hlatency, htotal⟩
  rw [(h.map _).sum_eq] at hinput houtput hlatency htotal
  rw [(h.map fun ev => ev.usage.output.toNat).sum_eq] at htotal
  exact ⟨hinput, houtput, hlatency, htotal⟩

/-- Nor do the totals. -/
theorem exactTotals_perm {events events' : List LlmEvent} (h : events.Perm events') :
    exactTotals events = exactTotals events' := by
  unfold exactTotals
  rw [(h.map fun ev => ev.costUsd.getD 0).sum_eq, (h.map fun ev => ev.usage.input.toNat).sum_eq,
    (h.map fun ev => ev.usage.output.toNat).sum_eq,
    (h.map fun ev => (ev.latencyMs.getD 0).toNat).sum_eq, h.countP_eq, h.countP_eq, h.length_eq]

/-- `distinct_models`, in first-seen order. -/
def distinctModels (events : List LlmEvent) : List String :=
  (events.map LlmEvent.model).eraseDups

end LightTrack
