import LightTrack.Store.ScopeUsage
import LightTrack.Store.TraceDetail
import LightTrack.Store.TracePages
import Mathlib.Data.Int.ModEq

/-! # List and detail of a trace

The list adds a trace up in SQL, in `i64` and in whole milliseconds; the detail folds the events, in
`u64` and with instants.  What each computes is exact as long as it can be computed, and then they
agree.

* `getTrace_eq_ok_iff` : when the detail of a trace can be computed, and as what,
* `sameFigures` : what both views compute is the same.
-/

namespace LightTrack

/-! ## The rows of a trace -/

/-- The spans of a trace, in the order they were stored. -/
def spansOf (rows : List EventRow) (project : Option String) (traceId : String) : List EventRow :=
  rows.filter fun r => r.traceId == some traceId && project.all fun p => r.projectId == p

section Rows

variable {rows : List EventRow} {project : Option String}

theorem traceRows_perm_spansOf (rows : List EventRow) (project : Option String)
    (traceId : String) : (traceRows rows project traceId).Perm (spansOf rows project traceId) :=
  traceRows_perm rows project traceId

/-- A group of the trace list holds the spans of its trace. -/
theorem tracesInScope_spansOf {g : String × List EventRow}
    (h : g ∈ tracesInScope rows project none) : g.1 ≠ "" ∧ g.2 = spansOf rows project g.1 := by
  have hrows := Group.mem_groupsBy h
  have hne := Group.ne_nil_of_mem_groupsBy h
  have hid : g.1 ≠ "" := by
    rintro hempty
    rcases List.exists_mem_of_ne_nil _ hne with ⟨r, hr⟩
    rw [hrows, hempty] at hr
    rcases List.mem_filter.1 hr with ⟨hscope, hkey⟩
    have htrace := (List.mem_filter.1 hscope).2
    unfold inScope at htrace
    unfold EventRow.traceKey at hkey
    cases hid : r.traceId with
    | none => simp [hid] at htrace
    | some id =>
      rw [hid] at hkey htrace
      have hid' : id = "" := by simpa using hkey
      simp [hid'] at htrace
  refine ⟨hid, ?_⟩
  rw [hrows, List.filter_filter]
  unfold spansOf
  apply List.filter_congr
  intro r _
  unfold EventRow.traceKey inScope
  cases htrace : r.traceId with
  | none => simp
  | some id =>
    by_cases hsame : id = g.1
    · subst hsame
      simp [hid]
    · have hno : (id == g.1) = false := by simpa using hsame
      simp [hno]

/-- The traces of the list are those with an id and a span. -/
theorem exists_group {traceId : String} (hid : traceId ≠ "")
    (hne : spansOf rows project traceId ≠ []) :
    (traceId, spansOf rows project traceId) ∈ tracesInScope rows project none := by
  rcases List.exists_mem_of_ne_nil _ hne with ⟨r, hr⟩
  rcases List.mem_filter.1 hr with ⟨hmem, hmine⟩
  rw [Bool.and_eq_true, beq_iff_eq] at hmine
  have hscope : inScope project none r = true := by
    unfold inScope
    rw [hmine.1]
    simp [hid, hmine.2]
  have hkey : traceId ∈ (tracesInScope rows project none).map Prod.fst := by
    unfold tracesInScope
    rw [Group.keys_groupsBy, List.mem_dedup, List.mem_map]
    refine ⟨r, List.mem_filter.2 ⟨hmem, hscope⟩, ?_⟩
    unfold EventRow.traceKey
    rw [hmine.1, Option.getD_some]
  rcases List.mem_map.1 hkey with ⟨g, hg, rfl⟩
  rw [← (tracesInScope_spansOf hg).2]
  exact hg

/-- A condition on all traces of the list, by their ids. -/
theorem forall_traces_iff {P : List EventRow → Prop} :
    (∀ g ∈ tracesInScope rows project none, P g.2) ↔
      ∀ id, id ≠ "" → spansOf rows project id ≠ [] → P (spansOf rows project id) := by
  constructor
  · intro h id hid hne
    exact h _ (exists_group hid hne)
  · intro h g hg
    rcases tracesInScope_spansOf hg with ⟨hid, hrows⟩
    have hne := Group.ne_nil_of_mem_groupsBy hg
    rw [hrows] at hne ⊢
    exact h g.1 hid hne

end Rows

/-! ## The detail -/

/-- What the detail of a trace reads and adds up can be read and added up. -/
structure DetailFits (spans : List EventRow) : Prop where
  readable : ∀ r ∈ spans, r.Readable
  ends : ∀ r ∈ spans, EndFits r.toEvent
  totals : TotalsFit (spans.map EventRow.toEvent)

/-- The parts of a trace are those of its events in any order. -/
theorem fromEventsBounded_perm_iff {evs spans : List LlmEvent} (h : (oldestFirst evs).Perm spans)
    (n : ℕ) (tr : Trace) : Trace.fromEventsBounded true evs n = .ok (some tr) ↔
      ((∀ ev ∈ spans, EndFits ev) ∧ TotalsFit spans) ∧
        ∃ first, (oldestFirst evs).head? = some first ∧
          tr = .ofParts (oldestFirst evs) first (exactShape spans) (exactTotals spans) n := by
  rw [fromEventsBounded_eq_ok_iff]
  simp only [ofEvents_eq_ok_iff, totalsOf_eq_ok_iff, exactShape_perm h, exactTotals_perm h,
    h.mem_iff]
  constructor
  · rintro ⟨first, _, _, hfirst, ⟨-, hends, rfl⟩, ⟨hfit, rfl⟩, rfl⟩
    exact ⟨⟨hends, hfit.perm h⟩, first, hfirst, rfl⟩
  · rintro ⟨⟨hends, hfit⟩, first, hfirst, rfl⟩
    refine ⟨first, _, _, hfirst, ⟨?_, hends, rfl⟩, ⟨hfit.perm h.symm, rfl⟩, rfl⟩
    intro hnil
    rw [hnil] at hfirst
    cases hfirst

/-- Within the cap every row of the trace is read and folded. -/
theorem getTrace_eq_fold_iff {rows : List EventRow} {project : Option String} {traceId : String}
    (hcap : (spansOf rows project traceId).length ≤ MAX_TRACE_SPANS.toNat) (tr : Trace) :
    getTrace true rows project traceId MAX_TRACE_SPANS = .ok (some tr) ↔
      (∀ r ∈ spansOf rows project traceId, r.Readable) ∧ Trace.fromEventsBounded true
        ((traceRows rows project traceId).map EventRow.toEvent)
        (traceRows rows project traceId).length = .ok (some tr) := by
  have hperm := traceRows_perm_spansOf rows project traceId
  have hlimit : MAX_TRACE_SPANS.toNat + 1 < 2 ^ 63 := by decide
  have hall : ∀ n, MAX_TRACE_SPANS.toNat ≤ n →
      (traceRows rows project traceId).take n = traceRows rows project traceId := by
    intro n hn
    rw [List.take_of_length_le]
    rw [hperm.length_eq]
    exact hcap.trans hn
  unfold getTrace
  simp only [Traverse.bind_eq_ok_iff, Traverse.mapError_eq_ok_iff,
    listByTrace_eq_ok_iff hlimit, hall _ (Nat.le_succ _), hall _ le_rfl, hperm.mem_iff]
  constructor
  · rintro ⟨_, ⟨hread, rfl⟩, htrace⟩
    exact ⟨hread, htrace⟩
  · rintro ⟨hread, htrace⟩
    exact ⟨_, ⟨hread, rfl⟩, htrace⟩

/-- **The detail of a trace** within the cap: when it can be computed, and as what. -/
theorem getTrace_eq_ok_iff {rows : List EventRow} {project : Option String} {traceId : String}
    (hne : spansOf rows project traceId ≠ [])
    (hcap : (spansOf rows project traceId).length ≤ MAX_TRACE_SPANS.toNat) :
    (DetailFits (spansOf rows project traceId) ↔
        ∃ tr, getTrace true rows project traceId MAX_TRACE_SPANS = .ok (some tr)) ∧
      ∀ tr, getTrace true rows project traceId MAX_TRACE_SPANS = .ok (some tr) →
        tr.durationMs =
            (exactShape ((spansOf rows project traceId).map EventRow.toEvent)).durationMs ∧
          tr.status =
            (exactShape ((spansOf rows project traceId).map EventRow.toEvent)).status ∧
          tr.totals = exactTotals ((spansOf rows project traceId).map EventRow.toEvent) := by
  have hperm := traceRows_perm_spansOf rows project traceId
  have hget := getTrace_eq_fold_iff hcap
  set spans := spansOf rows project traceId
  -- the fold sees the events in another order
  have hevents : (oldestFirst ((traceRows rows project traceId).map EventRow.toEvent)).Perm
      (spans.map EventRow.toEvent) := (oldestFirst_perm _).trans (hperm.map _)
  have hroll := fromEventsBounded_perm_iff hevents (traceRows rows project traceId).length
  simp only [List.forall_mem_map] at hroll
  obtain ⟨first, hfirst⟩ : ∃ first, (oldestFirst
      ((traceRows rows project traceId).map EventRow.toEvent)).head? = some first := by
    cases hhead : (oldestFirst ((traceRows rows project traceId).map EventRow.toEvent)).head? with
    | some first => exact ⟨first, rfl⟩
    | none =>
      rw [List.head?_eq_none_iff] at hhead
      rw [hhead] at hevents
      exact absurd (List.map_eq_nil_iff.1 hevents.nil_eq.symm) hne
  constructor
  · constructor
    · intro h
      exact ⟨_, (hget _).2 ⟨h.readable, (hroll _).2 ⟨⟨h.ends, h.totals⟩, first, hfirst, rfl⟩⟩⟩
    · rintro ⟨tr, htr⟩
      rcases (hget tr).1 htr with ⟨hread, htrace⟩
      rcases (hroll tr).1 htrace with ⟨⟨hends, hfit⟩, -⟩
      exact ⟨hread, hends, hfit⟩
  · intro tr htr
    rcases (hroll tr).1 ((hget tr).1 htr).2 with ⟨-, _, -, rfl⟩
    exact ⟨rfl, rfl, rfl⟩

/-! ## The figures -/

/-- The counters of a row are those of the event it was written for. -/
structure StoredCounters (r : EventRow) : Prop where
  input : asI64 r.toEvent.usage.input = r.inputTokens
  output : asI64 r.toEvent.usage.output = r.outputTokens
  latency : asI64 (r.toEvent.latencyMs.getD 0) = r.latencyMs.getD 0

theorem storedCounters_storedRow (p : ℕ × LlmEvent) : StoredCounters (storedRow p) := by
  have hlatency : (storedRow p).toEvent.latencyMs = p.2.latencyMs := by
    simp only [storedRow, EventRow.toEvent, EventRow.ofEvent, Option.map_map]
    cases p.2.latencyMs with
    | none => rfl
    | some n => exact congrArg some (EventRow.asU64_asI64 n)
  have hstored : (storedRow p).latencyMs = p.2.latencyMs.map asI64 := rfl
  have hinput : (storedRow p).toEvent.usage.input = p.2.usage.input := by
    have hrow : (storedRow p).toEvent.usage.input = EventRow.asU64 (storedRow p).inputTokens := rfl
    rw [hrow, inputTokens_storedRow, EventRow.asU64_asI64]
  have houtput : (storedRow p).toEvent.usage.output = p.2.usage.output := by
    have hrow : (storedRow p).toEvent.usage.output =
        EventRow.asU64 (storedRow p).outputTokens := rfl
    rw [hrow, outputTokens_storedRow, EventRow.asU64_asI64]
  constructor
  · rw [hinput, inputTokens_storedRow]
  · rw [houtput, outputTokens_storedRow]
  · rw [hlatency, hstored]
    cases p.2.latencyMs with
    | none =>
      have hzero : asI64 0 = 0 := by decide
      rw [Option.getD_none, hzero, Option.map_none, Option.getD_none]
    | some n => rw [Option.getD_some, Option.map_some, Option.getD_some]

theorem finish_digits (t : Int) :
    t / 1000000000 * 1000 + t % 1000000000 / 1000000 = t / 1000000 := by
  omega

/-- The finish of a row is the end of its span, in whole milliseconds. -/
theorem finishMs_eq {r : EventRow} (hyear : FourDigitYear r.ts) (hstored : StoredCounters r) :
    r.finishMs = some (Time.timestampMillis
      (r.toEvent.ts + asI64 (r.toEvent.latencyMs.getD 0) * Time.millisecond)) := by
  unfold EventRow.finishMs
  rw [if_pos hyear, Time.timestampMillis_add, hstored.latency]
  have hdigits : r.ts / Time.second * 1000 + r.ts % Time.second / Time.millisecond =
      Time.timestampMillis r.ts := finish_digits r.ts
  rw [hdigits]
  rfl

/-- The finish of a trace is its last end, in whole milliseconds. -/
theorem maxFinish_eq {spans : List EventRow} (hyears : ∀ r ∈ spans, FourDigitYear r.ts)
    (hstored : ∀ r ∈ spans, StoredCounters r) :
    (spans.filterMap EventRow.finishMs).max? = ((spans.map EventRow.toEvent).map fun ev =>
      ev.ts + asI64 (ev.latencyMs.getD 0) * Time.millisecond).max?.map Time.timestampMillis := by
  rw [← Extremum.max?_map fun _ _ => Time.timestampMillis_le, List.map_map, List.map_map,
    ← List.filterMap_eq_map]
  congr 1
  apply List.filterMap_congr
  intro r hr
  exact finishMs_eq (hyears r hr) (hstored r hr)

theorem ofMillis_timestampMillis {t : Time} (h : Time.InUtc t) :
    ∃ t', Time.ofMillis (Time.timestampMillis t) = some t' ∧
      Time.timestampMillis t' = Time.timestampMillis t := by
  have hround : ∀ x : Int, -8334601228800 * 1000000000 ≤ x → x ≤ 8210266876800 * 1000000000 - 1 →
      -8334601228800 * 1000000000 ≤ x / 1000000 * 1000000 ∧
        x / 1000000 * 1000000 ≤ 8210266876800 * 1000000000 - 1 ∧
        x / 1000000 * 1000000 / 1000000 = x / 1000000 := by
    intro x hmin hmax
    omega
  rcases hround t h.1 h.2 with ⟨hmin, hmax, hback⟩
  exact ⟨_, if_pos ⟨hmin, hmax⟩, hback⟩

/-- The list and the detail show the same duration. -/
theorem groupSummary_durationMs {g : String × List EventRow} (hne : g.2 ≠ [])
    (hstored : ∀ r ∈ g.2, StoredCounters r) (hfit : DetailFits g.2) :
    (groupSummary g).durationMs = (exactShape (g.2.map EventRow.toEvent)).durationMs := by
  have hyears : ∀ r ∈ g.2, FourDigitYear r.ts := fun r hr => (hfit.readable r hr).1
  have hfinish := maxFinish_eq hyears hstored
  have hstarts : (g.2.map EventRow.toEvent).map LlmEvent.ts = g.2.map EventRow.ts := by
    rw [List.map_map]
    rfl
  unfold groupSummary exactShape TraceShape.durationMs
  dsimp only
  rw [hfinish, hstarts]
  cases hmax : ((g.2.map EventRow.toEvent).map fun ev =>
      ev.ts + asI64 (ev.latencyMs.getD 0) * Time.millisecond).max? with
  | none =>
    rw [List.max?_eq_none_iff, List.map_eq_nil_iff, List.map_eq_nil_iff] at hmax
    exact absurd hmax hne
  | some t =>
    -- the last end is an instant, so the list does not fall back on the last start
    have hutc : Time.InUtc t := by
      rcases List.mem_map.1 (List.max?_eq_some_iff.1 hmax).1 with ⟨ev, hev, rfl⟩
      rcases List.mem_map.1 hev with ⟨r, hr, rfl⟩
      exact (hfit.ends r hr).2
    rcases ofMillis_timestampMillis hutc with ⟨t', ht', hmillis⟩
    rw [Option.map_some, Option.getD_some, Option.getD_some, ht', Option.getD_some, hmillis]

theorem asU64_of_emod {i : Int} {n : ℕ} (hn : n < 2 ^ 64)
    (h : i % (2 * i64Bound) = (n : Int) % (2 * i64Bound)) : EventRow.asU64 i = UInt64.ofNat n := by
  unfold EventRow.asU64
  rw [h]
  congr 1
  unfold i64Bound
  omega

/-- A stored column adds up to the counter of the events, modulo `2 ^ 64`. -/
theorem column_sum_emod {spans : List EventRow} (column : EventRow → Int)
    (counter : LlmEvent → UInt64) (hcolumn : ∀ r ∈ spans, asI64 (counter r.toEvent) = column r) :
    (spans.map column).sum % (2 * i64Bound) =
      ((((spans.map EventRow.toEvent).map fun ev => (counter ev).toNat).sum : ℕ) : Int) %
        (2 * i64Bound) := by
  induction spans with
  | nil => rfl
  | cons r spans ih =>
    have hr : column r % (2 * i64Bound) =
        ((counter r.toEvent).toNat : Int) % (2 * i64Bound) := by
      rw [← hcolumn r (List.mem_cons_self ..), ← asI64_emod (counter r.toEvent), Int.emod_emod]
    have hrest := ih fun r' hr' => hcolumn r' (List.mem_cons_of_mem _ hr')
    rw [List.map_cons, List.map_cons, List.map_cons, List.sum_cons, List.sum_cons, Nat.cast_add]
    exact Int.ModEq.add hr hrest

/-- The figures both views show. -/
structure SameFigures (s : TraceSummary) (tr : Trace) : Prop where
  duration : s.durationMs = tr.durationMs
  status : s.status = tr.status
  spans : s.spans = tr.totals.spans
  input : s.inputTokens = tr.totals.inputTokens
  output : s.outputTokens = tr.totals.outputTokens
  total : s.totalTokens = tr.totals.totalTokens
  errors : s.errors = tr.totals.errors
  cost : s.costUsd = tr.totals.costUsd

/-- **What both views compute is the same.** -/
theorem sameFigures {rows : List EventRow} {project : Option String} {traceId : String}
    (hne : spansOf rows project traceId ≠ [])
    (hstored : ∀ r ∈ spansOf rows project traceId, StoredCounters r)
    (hfit : DetailFits (spansOf rows project traceId)) {tr : Trace}
    (hduration : tr.durationMs =
      (exactShape ((spansOf rows project traceId).map EventRow.toEvent)).durationMs)
    (hstatus : tr.status =
      (exactShape ((spansOf rows project traceId).map EventRow.toEvent)).status)
    (htotals : tr.totals = exactTotals ((spansOf rows project traceId).map EventRow.toEvent)) :
    SameFigures (listedSummary rows project (traceId, spansOf rows project traceId)) tr := by
  set spans := spansOf rows project traceId
  have herrors : spans.countP (fun r => r.status != .success) =
      (spans.map EventRow.toEvent).countP fun ev => ev.status != .success := by
    rw [List.countP_map]
    rfl
  -- the columns were stored modulo 2^64, and so are their sums
  have hinput := column_sum_emod EventRow.inputTokens (fun ev => ev.usage.input)
    fun r (hr : r ∈ spans) => (hstored r hr).input
  have houtput := column_sum_emod EventRow.outputTokens (fun ev => ev.usage.output)
    fun r (hr : r ∈ spans) => (hstored r hr).output
  constructor
  · rw [hduration]
    exact groupSummary_durationMs (g := (traceId, spans)) hne hstored hfit
  · rw [hstatus]
    unfold listedSummary withModels groupSummary exactShape TraceShape.status
    dsimp only
    rw [herrors]
  · rw [htotals]
    exact (List.length_map _).symm
  · rw [htotals]
    exact asU64_of_emod hfit.totals.input hinput
  · rw [htotals]
    exact asU64_of_emod hfit.totals.output houtput
  · rw [htotals]
    refine asU64_of_emod hfit.totals.total ?_
    rw [wrapI64_emod, Int.add_emod, hinput, houtput, ← Int.add_emod, Nat.cast_add]
  · rw [htotals]
    exact herrors
  · rw [htotals]
    unfold exactTotals
    rw [List.map_map]
    rfl

end LightTrack
