import LightTrack.Core.TraceTree
import LightTrack.Store.TraceSummaries

/-! # One trace

The detail read takes the oldest spans up to a cap, and counts the rest.  A verdict records the
first root's exchange and the true span count; the first root of a clipped read can be a span whose
parent was cut off.

* `listByTrace_eq_ok_iff` : what a capped read yields, and when,
* `getTrace_coverage` : what a verdict over it would record,
* `coverage_stable_iff` : exactly when two caps record the same.
-/

namespace LightTrack

/-- `TraceEvents`. -/
structure TraceEvents where
  events : List LlmEvent
  total : ℕ

/-- The rows of a trace, oldest first. -/
def traceRows (rows : List EventRow) (project : Option String) (traceId : String) :
    List EventRow :=
  (rows.filter fun r => r.traceId == some traceId && project.all fun p => r.projectId == p).mergeSort
    fun a b => decide (fmtTs a.ts ≤ fmtTs b.ts)

/-- `list_by_trace`. -/
def listByTrace (rows : List EventRow) (project : Option String) (traceId : String)
    (maxSpans : UInt64) : Except StoreError TraceEvents := do
  let mine := traceRows rows project traceId
  let events ← (sqlFetch maxSpans mine).mapM fromRaw
  -- `events.len() as i64 <= max_spans as i64`
  if maxSpans.toNat < 2 ^ 63 ∧ events.length ≤ maxSpans.toNat then
    return { events, total := events.length }
  else return { events := events.take maxSpans.toNat, total := mine.length }

/-- `get_trace`. -/
def getTrace (checks : Bool) (rows : List EventRow) (project : Option String) (traceId : String)
    (maxSpans : UInt64) : Except TraceError (Option Trace) := do
  let page ← (listByTrace rows project traceId maxSpans).mapError .store
  (Trace.fromEventsBounded checks page.events page.total).mapError .panic

/-- `MAX_TRACE_SPANS`. -/
def MAX_TRACE_SPANS : UInt64 := 5000

section Read

variable {rows : List EventRow} {project : Option String} {traceId : String}

theorem traceRows_perm (rows : List EventRow) (project : Option String) (traceId : String) :
    (traceRows rows project traceId).Perm (rows.filter fun r =>
      r.traceId == some traceId && project.all fun p => r.projectId == p) :=
  List.mergeSort_perm _ _

/-- The rows are in the order of their text. -/
theorem traceRows_pairwise (rows : List EventRow) (project : Option String) (traceId : String) :
    (traceRows rows project traceId).Pairwise fun a b => fmtTs a.ts ≤ fmtTs b.ts := by
  unfold traceRows
  refine (List.pairwise_mergeSort ?_ ?_ _).imp ?_
  · intro a b c hab hbc
    simp only [decide_eq_true_eq] at hab hbc ⊢
    exact hab.trans hbc
  · intro a b
    simp only [Bool.or_eq_true, decide_eq_true_eq]
    exact le_total _ _
  · intro a b h
    simpa using h

/-- **A capped read** yields the oldest spans and the number of all, when every row it fetches can
be read. -/
theorem listByTrace_eq_ok_iff {maxSpans : UInt64} (h : maxSpans.toNat + 1 < 2 ^ 63)
    {page : TraceEvents} :
    listByTrace rows project traceId maxSpans = .ok page ↔
      (∀ r ∈ (traceRows rows project traceId).take (maxSpans.toNat + 1), r.Readable) ∧
        page = { events :=
                  ((traceRows rows project traceId).take maxSpans.toNat).map EventRow.toEvent
                 total := (traceRows rows project traceId).length } := by
  unfold listByTrace
  dsimp only
  set mine := traceRows rows project traceId
  have hfetch : sqlFetch maxSpans mine = mine.take (maxSpans.toNat + 1) := if_pos h
  have hpage : ∀ events : List LlmEvent,
      events = (mine.take (maxSpans.toNat + 1)).map EventRow.toEvent →
        (if maxSpans.toNat < 2 ^ 63 ∧ events.length ≤ maxSpans.toNat then
          (.ok { events, total := events.length } : Except StoreError TraceEvents)
          else .ok { events := events.take maxSpans.toNat, total := mine.length }) =
        .ok { events := (mine.take maxSpans.toNat).map EventRow.toEvent, total := mine.length } := by
    rintro events rfl
    by_cases hlen : mine.length ≤ maxSpans.toNat
    · -- nothing was cut off
      have hall : mine.take (maxSpans.toNat + 1) = mine := List.take_of_length_le (by omega)
      have hall' : mine.take maxSpans.toNat = mine := List.take_of_length_le hlen
      rw [hall, hall', List.length_map, if_pos ⟨by omega, hlen⟩]
    · have hfull : ((mine.take (maxSpans.toNat + 1)).map EventRow.toEvent).length =
          maxSpans.toNat + 1 := by
        rw [List.length_map, List.length_take]
        omega
      rw [hfull, if_neg (by omega), ← List.map_take, List.take_take, min_eq_left (by omega)]
  rw [hfetch, Traverse.bind_eq_ok_iff]
  simp only [Traverse.mapM_eq_map_iff fun _ _ => fromRaw_eq_ok_iff, pure, Except.pure]
  constructor
  · rintro ⟨events, ⟨hread, hevents⟩, hok⟩
    rw [hpage events hevents] at hok
    exact ⟨hread, (Except.ok.inj hok).symm⟩
  · rintro ⟨hread, rfl⟩
    exact ⟨_, ⟨hread, rfl⟩, hpage _ rfl⟩

/-- The events of readable rows are in chronological order. -/
theorem traceEvents_sorted {k : ℕ}
    (hread : ∀ r ∈ (traceRows rows project traceId).take k, r.Readable) :
    (((traceRows rows project traceId).take k).map EventRow.toEvent).Pairwise
      fun a b => a.ts ≤ b.ts := by
  rw [List.pairwise_map]
  have htext := (traceRows_pairwise rows project traceId).sublist (List.take_sublist k _)
  refine htext.imp_of_mem ?_
  intro a b ha hb hle
  exact (fmtTs_le_iff (hread a ha).1 (hread b hb).1).1 hle

/-- A trace that was read, step by step. -/
theorem getTrace_eq_ok {checks : Bool} {maxSpans : UInt64} (h : maxSpans.toNat + 1 < 2 ^ 63)
    {tr : Option Trace} (hget : getTrace checks rows project traceId maxSpans = .ok tr) :
    (∀ r ∈ (traceRows rows project traceId).take (maxSpans.toNat + 1), r.Readable) ∧
      Trace.fromEventsBounded checks
        (((traceRows rows project traceId).take maxSpans.toNat).map EventRow.toEvent)
        (traceRows rows project traceId).length = .ok tr := by
  unfold getTrace at hget
  rw [Traverse.bind_eq_ok_iff] at hget
  rcases hget with ⟨page, hpage, htrace⟩
  rw [Traverse.mapError_eq_ok_iff] at hpage htrace
  rcases (listByTrace_eq_ok_iff h).1 hpage with ⟨hread, rfl⟩
  exact ⟨hread, htrace⟩

/-- The events of a trace, oldest first. -/
def traceEvents (rows : List EventRow) (project : Option String) (traceId : String) :
    List LlmEvent :=
  (traceRows rows project traceId).map EventRow.toEvent

/-- **What a verdict over a capped read records**: the number of all spans, and the exchange of the
first span whose parent the cap cut off or that has none. -/
theorem getTrace_coverage {checks : Bool} {maxSpans : UInt64} (hpos : 0 < maxSpans.toNat)
    (h : maxSpans.toNat + 1 < 2 ^ 63) {tr : Trace}
    (hget : getTrace checks rows project traceId maxSpans = .ok (some tr)) :
    firstUncovered (traceEvents rows project traceId) maxSpans.toNat <
        (traceEvents rows project traceId).length ∧
      tr.coverage.spans = (traceEvents rows project traceId).length ∧
      tr.coverage.digest = exchangeDigest (traceEvents rows project traceId)[
        firstUncovered (traceEvents rows project traceId) maxSpans.toNat]? := by
  rcases getTrace_eq_ok h hget with ⟨hread, htrace⟩
  have hread' : ∀ r ∈ (traceRows rows project traceId).take maxSpans.toNat, r.Readable := by
    intro r hr
    exact hread r (List.take_subset_take_left _ (by omega) hr)
  have hlen : (((traceRows rows project traceId).take maxSpans.toNat).map
      EventRow.toEvent).length ≤ (traceRows rows project traceId).length := by
    rw [List.length_map]
    exact List.length_take_le' _ _
  have hne : traceEvents rows project traceId ≠ [] := by
    unfold traceEvents
    intro hnil
    rcases fromEventsBounded_eq_ok_iff.1 htrace with ⟨first, _, _, hfirst, -⟩
    rw [List.map_eq_nil_iff.1 hnil] at hfirst
    simp [oldestFirst] at hfirst
  rcases fromEventsBounded_coverage (traceEvents_sorted hread') hlen htrace with ⟨hspans, hdigest⟩
  have hlt := firstUncovered_lt hpos hne
  refine ⟨lt_of_lt_of_le hlt (min_le_right _ _), ?_, ?_⟩
  · rw [hspans]
    unfold traceEvents
    rw [List.length_map]
  · rw [List.map_take] at hdigest
    rw [hdigest, ← traceEvents, firstRoot_take,
      List.getElem?_take_of_lt (lt_of_lt_of_le hlt (min_le_left _ _))]

end Read

/-! ## Coverage and caps -/

/-- The exchanges of two different events have by accident the same fingerprint. -/
def Collide (events : List LlmEvent) (i j : ℕ) : Prop :=
  i ≠ j ∧ exchangeDigest events[i]? = exchangeDigest events[j]?

/-- A fingerprint is never empty. -/
theorem exchangeDigest_ne_empty (root : Option LlmEvent) : exchangeDigest root ≠ "" := by
  intro h
  have hlist := congrArg String.toList h
  unfold exchangeDigest fingerprint hexU64 at hlist
  rw [String.toList_ofList] at hlist
  simp [List.range_succ, Json.hexPair] at hlist

/-- Coverages that agree show no drift, and only those do. -/
theorem drift_eq_none_iff {c current : TraceCoverage} (h : c.digest ≠ "") :
    c.drift current = .none ↔ c.digest = current.digest ∧ c.spans = current.spans := by
  unfold TraceCoverage.drift
  by_cases hdigest : c.digest = current.digest
  · by_cases hspans : c.spans = current.spans
    · simp [hdigest, hspans]
    · simp [hdigest, hspans]
  · simp [h, hdigest]

/-- **Two caps record the same coverage**, and neither shows the other as drift, exactly when both
reads start with the same root, or fingerprints collide. -/
theorem coverage_stable_iff (checks : Bool) (t : EventTable) (project : Option String)
    (traceId : String) (k k' : UInt64) (hpos : 0 < k.toNat) (hpos' : 0 < k'.toNat)
    (hk : k.toNat + 1 < 2 ^ 63) (hk' : k'.toNat + 1 < 2 ^ 63) (tr tr' : Trace)
    (hread : getTrace checks t.rows project traceId k = .ok (some tr))
    (hread' : getTrace checks t.rows project traceId k' = .ok (some tr')) :
    (tr.coverage.digest = tr'.coverage.digest ∧ tr.coverage.spans = tr'.coverage.spans ∧
      tr.coverage.drift tr'.coverage = .none) ↔
      firstUncovered (traceEvents t.rows project traceId) k.toNat =
          firstUncovered (traceEvents t.rows project traceId) k'.toNat ∨
        Collide (traceEvents t.rows project traceId)
          (firstUncovered (traceEvents t.rows project traceId) k.toNat)
          (firstUncovered (traceEvents t.rows project traceId) k'.toNat) := by
  rcases getTrace_coverage hpos hk hread with ⟨-, hspans, hdigest⟩
  rcases getTrace_coverage hpos' hk' hread' with ⟨-, hspans', hdigest'⟩
  have hne : tr.coverage.digest ≠ "" := by
    rw [hdigest]
    exact exchangeDigest_ne_empty _
  rw [drift_eq_none_iff hne, hspans, hspans', hdigest, hdigest']
  constructor
  · rintro ⟨heq, -⟩
    by_cases hroot : firstUncovered (traceEvents t.rows project traceId) k.toNat =
        firstUncovered (traceEvents t.rows project traceId) k'.toNat
    · exact .inl hroot
    · exact .inr ⟨hroot, heq⟩
  · rintro (hroot | ⟨-, heq⟩)
    · rw [hroot]
      exact ⟨rfl, rfl, rfl, rfl⟩
    · exact ⟨heq, rfl, heq, rfl⟩

/-- A tool call that started a nanosecond before the agent that made it, by its own clock. -/
def earlyChild : LlmEvent where
  id := "e1"
  projectId := "p"
  traceId := some "t1"
  spanId := some "child"
  parentSpanId := some "root"
  ts := 0
  receivedAt := 0
  provider := .new "openai"
  model := "gpt-4o"
  usage := { input := 10, output := 5 }

/-- The agent's span. -/
def lateRoot : LlmEvent :=
  { earlyChild with id := "e2", spanId := some "root", parentSpanId := none, ts := 1 }

/-- Both spans of the trace. -/
def twoSpans : EventTable := (EventTable.empty.append earlyChild rfl).append lateRoot rfl

theorem twoSpans_rows : traceRows twoSpans.rows (some "p") "t1" = twoSpans.rows := by
  have hsame : (twoSpans.rows.filter fun r => r.traceId == some "t1" &&
      (some "p").all fun p => r.projectId == p) = twoSpans.rows := by
    rw [List.filter_eq_self]
    decide +kernel
  unfold traceRows
  rw [hsame]
  refine List.mergeSort_of_pairwise ?_
  decide +kernel

/-- Both spans can be read under any cap. -/
theorem twoSpans_getTrace {k : UInt64} (hpos : 0 < k.toNat) (hk : k.toNat + 1 < 2 ^ 63) :
    ∃ tr, getTrace true twoSpans.rows (some "p") "t1" k = .ok (some tr) := by
  have hread : ∀ r ∈ twoSpans.rows, r.Readable := by decide +kernel
  have hsorted : (twoSpans.rows.map EventRow.toEvent).Pairwise fun a b => a.ts ≤ b.ts := by
    decide +kernel
  have hpage : listByTrace twoSpans.rows (some "p") "t1" k = .ok
      { events := ((traceRows twoSpans.rows (some "p") "t1").take k.toNat).map EventRow.toEvent
        total := (traceRows twoSpans.rows (some "p") "t1").length } := by
    refine (listByTrace_eq_ok_iff hk).2 ⟨?_, rfl⟩
    intro r hr
    exact hread r (twoSpans_rows ▸ List.mem_of_mem_take hr)
  -- the cap cuts the second span off, or nothing
  have hcap : (twoSpans.rows.take k.toNat).map EventRow.toEvent =
        (twoSpans.rows.take 1).map EventRow.toEvent ∨
      (twoSpans.rows.take k.toNat).map EventRow.toEvent = twoSpans.rows.map EventRow.toEvent := by
    by_cases hone : k.toNat = 1
    · exact .inl (by rw [hone])
    · right
      rw [List.take_of_length_le]
      exact (show twoSpans.rows.length = 2 from rfl) ▸ by omega
  have hroll : ∀ events : List LlmEvent, (events.Pairwise fun a b => a.ts ≤ b.ts) →
      events.head?.isSome = true → (TraceShape.ofEvents events).toOption.join.isSome = true →
        (totalsOf true events).toOption.isSome = true →
          ∃ tr, Trace.fromEventsBounded true events 2 = .ok (some tr) := by
    intro events hsorted hfirst hshape htotals
    rcases Option.isSome_iff_exists.1 hfirst with ⟨first, hfirst⟩
    cases hs : TraceShape.ofEvents events with
    | error e => simp [hs, Except.toOption] at hshape
    | ok shape? =>
      cases ht : totalsOf true events with
      | error e => simp [ht, Except.toOption] at htotals
      | ok totals =>
        cases shape? with
        | none => simp [hs, Except.toOption] at hshape
        | some shape =>
          refine ⟨.ofParts events first shape totals 2, fromEventsBounded_eq_ok_iff.2
            ⟨first, shape, totals, ?_⟩⟩
          rw [oldestFirst_of_sorted hsorted]
          exact ⟨hfirst, hs, ht, rfl⟩
  unfold getTrace
  rw [hpage, twoSpans_rows]
  have htotal : twoSpans.rows.length = 2 := rfl
  rcases hcap with hcap | hcap
  · rcases hroll ((twoSpans.rows.take 1).map EventRow.toEvent) (by decide +kernel)
      (by decide +kernel) (by decide +kernel) (by decide +kernel) with ⟨tr, htr⟩
    refine ⟨tr, ?_⟩
    simp only [Except.mapError, bind, Except.bind, hcap, htotal, htr]
  · rcases hroll (twoSpans.rows.map EventRow.toEvent) hsorted (by decide +kernel)
      (by decide +kernel) (by decide +kernel) with ⟨tr, htr⟩
    refine ⟨tr, ?_⟩
    simp only [Except.mapError, bind, Except.bind, hcap, htotal, htr]

theorem twoSpans_events : traceEvents twoSpans.rows (some "p") "t1" = [earlyChild, lateRoot] := by
  unfold traceEvents
  rw [twoSpans_rows]
  rfl

/-- A cap that keeps both spans records the same under another one. -/
theorem coverage_stable_iff_sample : ∃ tr tr',
    getTrace true twoSpans.rows (some "p") "t1" 2 = .ok (some tr) ∧
      getTrace true twoSpans.rows (some "p") "t1" MAX_TRACE_SPANS = .ok (some tr') ∧
      tr.coverage.drift tr'.coverage = .none := by
  rcases twoSpans_getTrace (k := 2) (by decide) (by decide) with ⟨tr, htr⟩
  rcases twoSpans_getTrace (k := MAX_TRACE_SPANS) (by decide) (by decide) with ⟨tr', htr'⟩
  refine ⟨tr, tr', htr, htr', ?_⟩
  have hroot : firstUncovered (traceEvents twoSpans.rows (some "p") "t1") (2 : UInt64).toNat =
      firstUncovered (traceEvents twoSpans.rows (some "p") "t1") MAX_TRACE_SPANS.toNat := by
    rw [twoSpans_events]
    decide +kernel
  exact ((coverage_stable_iff true twoSpans (some "p") "t1" 2 MAX_TRACE_SPANS (by decide)
    (by decide) (by decide) (by decide) tr tr' htr htr').2 (.inl hroot)).2.2

/-- **A child that sorts before its parent**: with room for one span the child is the root, and a
verdict formed over the clipped read reports the unchanged trace as changed. -/
theorem early_child_drifts : ∃ tr tr',
    getTrace true twoSpans.rows (some "p") "t1" 1 = .ok (some tr) ∧
      getTrace true twoSpans.rows (some "p") "t1" MAX_TRACE_SPANS = .ok (some tr') ∧
      tr.coverage.digest ≠ tr'.coverage.digest ∧
      (tr.coverage.drift tr'.coverage).reason = some "changed" := by
  rcases twoSpans_getTrace (k := 1) (by decide) (by decide) with ⟨tr, htr⟩
  rcases twoSpans_getTrace (k := MAX_TRACE_SPANS) (by decide) (by decide) with ⟨tr', htr'⟩
  rcases getTrace_coverage (by decide) (by decide) htr with ⟨-, -, hdigest⟩
  rcases getTrace_coverage (by decide) (by decide) htr' with ⟨-, -, hdigest'⟩
  have hne : tr.coverage.digest ≠ tr'.coverage.digest := by
    rw [hdigest, hdigest', twoSpans_events]
    decide +kernel
  refine ⟨tr, tr', htr, htr', hne, ?_⟩
  have hsome : tr.coverage.digest ≠ "" := by
    rw [hdigest]
    exact exchangeDigest_ne_empty _
  unfold TraceCoverage.drift
  rw [if_pos ⟨hsome, hne⟩]
  rfl

end LightTrack
