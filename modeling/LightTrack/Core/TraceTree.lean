import LightTrack.Core.Json
import LightTrack.Core.TraceShape
import LightTrack.Lib.Traverse

/-! # A trace and its span tree

The events of a trace, oldest first, are arranged by their parent links.  A root is a span without
a parent in the read; a cycle is entered at its first span.  What a whole-trace verdict covers is
the exchange of the first root.

* `buildForest_head` : which event the forest starts with,
* `fromEventsBounded_coverage` : what the coverage of events in order records,
* `firstRoot_take` : the first root of a clipped read, by the parent links of the whole trace.
-/

namespace LightTrack

/-- `TraceSpan`. -/
inductive TraceSpan where
  | node (event : LlmEvent) (offsetMs : Int) (latencyMs : Option UInt64) (duplicateSpanId : Bool)
      (children : List TraceSpan)

namespace TraceSpan

/-- The event of a span. -/
def event : TraceSpan → LlmEvent
  | node ev _ _ _ _ => ev

end TraceSpan

/-! ## The forest -/

section Forest

variable (events : List LlmEvent)

/-- The first event that claims a span id. -/
def spanOwner (sid : String) : Option ℕ := events.findIdx? fun ev => ev.spanId == some sid

/-- The parent of an event: another event that owns the span id it names. -/
def parentOf (i : ℕ) : Option ℕ :=
  ((events[i]?.bind LlmEvent.parentSpanId).bind (spanOwner events)).filter fun p => p != i

/-- The events under a parent, oldest first. -/
def childrenOf (p : ℕ) : List ℕ :=
  (List.range events.length).filter fun i => parentOf events i == some p

/-- The events without a parent, oldest first. -/
def rootsOf : List ℕ := (List.range events.length).filter fun i => (parentOf events i).isNone

/-- An earlier event already claimed the span id. -/
def isDuplicate (i : ℕ) : Bool :=
  match events[i]?.bind LlmEvent.spanId with
  | some sid => spanOwner events sid != some i
  | none => false

/-- `take_subtree`. An event is taken at most once, so a subtree is no deeper than there are
events, and `fuel` never runs out. -/
def takeSubtree (traceStart : Time) : ℕ → ℕ → List ℕ → Option TraceSpan × List ℕ
  | 0, _, taken => (none, taken)
  | fuel + 1, idx, taken =>
    if idx ∈ taken then (none, taken)
    else
      match events[idx]? with
      | none => (none, idx :: taken)
      | some ev =>
        let kids := (childrenOf events idx).foldl
          (fun (acc : List TraceSpan × List ℕ) c =>
            let sub := takeSubtree traceStart fuel c acc.2
            (acc.1 ++ sub.1.toList, sub.2))
          ([], idx :: taken)
        (some (.node ev (max ((ev.ts - traceStart).tdiv Time.millisecond) 0) ev.latencyMs
          (isDuplicate events idx) kids.1), kids.2)

/-- One round of the loops of `build_forest`. -/
def plant (traceStart : Time) (acc : List TraceSpan × List ℕ) (i : ℕ) : List TraceSpan × List ℕ :=
  let tree := takeSubtree events traceStart events.length i acc.2
  (acc.1 ++ tree.1.toList, tree.2)

/-- `build_forest`: the roots, then what is reachable from none. -/
def buildForest (traceStart : Time) : List TraceSpan :=
  let planted := (rootsOf events).foldl (plant events traceStart) ([], [])
  ((List.range events.length).foldl (plant events traceStart) planted).1

end Forest

/-! ## The trace -/

/-- `Trace`. -/
structure Trace where
  traceId : String
  projectId : String
  startedAt : Time
  endedAt : Time
  durationMs : Int
  status : String
  totals : TraceTotals
  models : List String
  spansTotal : ℕ
  spansLogged : ℕ
  spansTruncated : Bool
  spans : List TraceSpan

/-- `events.sort_by_key(|a| a.ts)`. -/
def oldestFirst (events : List LlmEvent) : List LlmEvent :=
  events.mergeSort fun a b => decide (a.ts ≤ b.ts)

/-- The trace of events in order. -/
def Trace.ofParts (events : List LlmEvent) (first : LlmEvent) (shape : TraceShape)
    (totals : TraceTotals) (spansTotal : ℕ) : Trace where
  traceId := (events.findSome? LlmEvent.traceId).getD ""
  projectId := first.projectId
  startedAt := shape.startedAt
  endedAt := (events.map LlmEvent.ts).max?.getD first.ts
  durationMs := shape.durationMs
  status := shape.status
  totals := totals
  models := distinctModels events
  spansTotal := max spansTotal events.length
  spansLogged := events.length
  spansTruncated := decide (events.length < spansTotal)
  spans := buildForest events shape.startedAt

/-- `Trace::from_events_bounded`. -/
def Trace.fromEventsBounded (checks : Bool) (unsorted : List LlmEvent) (spansTotal : ℕ) :
    Except Overflow (Option Trace) :=
  let events := oldestFirst unsorted
  match events.head? with
  | none => .ok none
  | some first => do
    let shape? ← TraceShape.ofEvents events
    match shape? with
    | none => return none
    | some shape => do
      let totals ← totalsOf checks events
      return some (Trace.ofParts events first shape totals spansTotal)

/-! ## Coverage -/

/-- FNV-1a, 64 bit. -/
def fnvMix (h : UInt64) (bytes : List UInt8) : UInt64 :=
  bytes.foldl (fun h b => (h ^^^ b.toUInt64) * 0x100000001b3) h

/-- `format!("{h:016x}")`. -/
def hexU64 (h : UInt64) : String :=
  String.ofList ((List.range 8).flatMap fun i => Json.hexPair (h.toNat / 256 ^ (7 - i) % 256))

/-- `fingerprint`: the parts are kept apart by a unit separator. -/
def fingerprint (parts : List String) : String :=
  hexU64 (parts.zipIdx.foldl
    (fun h p => fnvMix (if 0 < p.2 then fnvMix h [0x1f] else h) p.1.toUTF8.data.toList)
    0xcbf29ce484222325)

/-- `TraceCoverage`. -/
structure TraceCoverage where
  spans : ℕ := 0
  rootEventId : String := ""
  digest : String := ""
  truncated : Bool := false
  deriving DecidableEq

/-- The text of a payload: nothing for a missing or null one. -/
def payloadText : Option Json → String
  | none | some .null => ""
  | some v => v.render

/-- The fingerprint of the exchange of a root. -/
def exchangeDigest (root : Option LlmEvent) : String :=
  fingerprint [(root.map LlmEvent.id).getD "", payloadText (root.bind LlmEvent.input),
    payloadText (root.bind LlmEvent.output)]

namespace Trace

/-- `Trace::root_event_id`. -/
def rootEventId (t : Trace) : Option String := t.spans.head?.map fun s => s.event.id

/-- `Trace::coverage`. -/
def coverage (t : Trace) : TraceCoverage :=
  let root := t.spans.head?.map TraceSpan.event
  { spans := t.spansTotal
    rootEventId := (root.map LlmEvent.id).getD ""
    digest := exchangeDigest root
    truncated := t.spansTruncated }

theorem coverage_digest (t : Trace) :
    t.coverage.digest = exchangeDigest (t.spans.head?.map TraceSpan.event) := rfl

end Trace

/-- `TraceDrift`. -/
inductive TraceDrift where
  | none
  | grown
  | changed
  deriving DecidableEq

/-- `TraceDrift::reason`. -/
def TraceDrift.reason : TraceDrift → Option String
  | none => .none
  | grown => some "grown"
  | changed => some "changed"

/-- `TraceCoverage::drift`: without a digest only the sizes can be compared. -/
def TraceCoverage.drift (c current : TraceCoverage) : TraceDrift :=
  if c.digest ≠ "" ∧ c.digest ≠ current.digest then .changed
  else if c.spans ≠ current.spans then .grown
  else .none

/-! ## The first root -/

/-- The index of the event the forest starts with. -/
def firstRoot (events : List LlmEvent) : ℕ := (rootsOf events).head?.getD 0

theorem takeSubtree_of_free {events : List LlmEvent} (traceStart : Time) (fuel : ℕ) {idx : ℕ}
    {taken : List ℕ} (hfree : idx ∉ taken) {ev : LlmEvent} (hev : events[idx]? = some ev) :
    ∃ span, (takeSubtree events traceStart (fuel + 1) idx taken).1 = some span ∧
      span.event = ev := by
  unfold takeSubtree
  rw [if_neg hfree, hev]
  exact ⟨_, rfl, rfl⟩

/-- Planting appends. -/
theorem foldl_plant_head {events : List LlmEvent} {traceStart : Time} {span : TraceSpan}
    (is : List ℕ) (acc : List TraceSpan × List ℕ) (hacc : acc.1.head? = some span) :
    (is.foldl (plant events traceStart) acc).1.head? = some span := by
  induction is generalizing acc with
  | nil => exact hacc
  | cons i is ih =>
    rw [List.foldl_cons]
    apply ih
    unfold plant
    rw [List.head?_append, hacc, Option.some_or]

/-- The first planted tree is the first of the forest. -/
theorem plant_head {events : List LlmEvent} (traceStart : Time) {i : ℕ} {ev : LlmEvent}
    (hev : events[i]? = some ev) :
    ∃ span, (plant events traceStart ([], []) i).1.head? = some span ∧ span.event = ev := by
  rcases List.getElem?_eq_some_iff.1 hev with ⟨hi, -⟩
  obtain ⟨fuel, hfuel⟩ : ∃ fuel, events.length = fuel + 1 := ⟨events.length - 1, by omega⟩
  rcases takeSubtree_of_free traceStart fuel List.not_mem_nil hev with
    ⟨span, hspan, hevent⟩
  refine ⟨span, ?_, hevent⟩
  unfold plant
  simp only [hfuel, hspan]
  rfl

/-- **The forest starts with the first root**, or with the first event where there is none. -/
theorem buildForest_head {events : List LlmEvent} (traceStart : Time) (h : events ≠ []) :
    (buildForest events traceStart).head?.map TraceSpan.event = events[firstRoot events]? := by
  have hstart : ∀ {i : ℕ} (is : List ℕ) {ev : LlmEvent}, events[i]? = some ev →
      ∃ span, ((i :: is).foldl (plant events traceStart) ([], [])).1.head? = some span ∧
        span.event = ev := by
    intro i is ev hev
    rcases plant_head traceStart hev with ⟨span, hhead, hevent⟩
    exact ⟨span, foldl_plant_head is _ hhead, hevent⟩
  unfold buildForest firstRoot
  cases hroots : rootsOf events with
  | cons i is =>
    have hi : i < events.length := by
      have hmem : i ∈ rootsOf events := by rw [hroots]; exact List.mem_cons_self ..
      exact List.mem_range.1 (List.mem_filter.1 hmem).1
    rcases hstart is (List.getElem?_eq_getElem hi) with ⟨span, hhead, hevent⟩
    rw [foldl_plant_head _ _ hhead]
    simp [hevent, hi]
  | nil =>
    -- every event is under another one: the first is promoted
    obtain ⟨n, hn⟩ : ∃ n, events.length = n + 1 :=
      ⟨events.length - 1, by have := List.length_pos_of_ne_nil h; omega⟩
    have hzero : 0 < events.length := by omega
    rcases hstart ((List.range n).map Nat.succ) (List.getElem?_eq_getElem hzero) with
      ⟨span, hhead, hevent⟩
    rw [hn, List.range_succ_eq_map, List.foldl_nil, hhead]
    simp [hevent, hzero]

theorem oldestFirst_perm (events : List LlmEvent) : (oldestFirst events).Perm events :=
  List.mergeSort_perm _ _

/-- Events that are already in order stay as they are. -/
theorem oldestFirst_of_sorted {events : List LlmEvent}
    (h : events.Pairwise fun a b => a.ts ≤ b.ts) : oldestFirst events = events := by
  refine List.mergeSort_of_pairwise (h.imp ?_)
  intro a b hab
  simpa using hab

/-- A successful rollup of some events, step by step. -/
theorem fromEventsBounded_eq_ok_iff {checks : Bool} {events : List LlmEvent} {spansTotal : ℕ}
    {tr : Trace} :
    Trace.fromEventsBounded checks events spansTotal = .ok (some tr) ↔
      ∃ first shape totals, (oldestFirst events).head? = some first ∧
      TraceShape.ofEvents (oldestFirst events) = .ok (some shape) ∧
      totalsOf checks (oldestFirst events) = .ok totals ∧
      tr = .ofParts (oldestFirst events) first shape totals spansTotal := by
  unfold Trace.fromEventsBounded
  constructor
  · intro h
    cases hfirst : (oldestFirst events).head? with
    | none => simp [hfirst] at h
    | some first =>
      simp only [hfirst, Traverse.bind_eq_ok_iff] at h
      rcases h with ⟨shape?, hshape, h⟩
      cases shape? with
      | none => simp [pure, Except.pure] at h
      | some shape =>
        simp only [Traverse.bind_eq_ok_iff, pure, Except.pure, Except.ok.injEq,
          Option.some.injEq] at h
        rcases h with ⟨totals, htotals, heq⟩
        exact ⟨first, shape, totals, rfl, hshape, htotals, heq.symm⟩
  · rintro ⟨first, shape, totals, hfirst, hshape, htotals, rfl⟩
    simp only [hfirst, hshape, htotals, bind, Except.bind, pure, Except.pure]

/-- What the coverage of events that are already in order records. -/
theorem fromEventsBounded_coverage {checks : Bool} {events : List LlmEvent} {spansTotal : ℕ}
    (hsorted : events.Pairwise fun a b => a.ts ≤ b.ts) (hle : events.length ≤ spansTotal)
    {tr : Trace} (h : Trace.fromEventsBounded checks events spansTotal = .ok (some tr)) :
    tr.coverage.spans = spansTotal ∧
      tr.coverage.digest = exchangeDigest events[firstRoot events]? := by
  rcases fromEventsBounded_eq_ok_iff.1 h with ⟨first, shape, totals, hfirst, -, -, rfl⟩
  rw [oldestFirst_of_sorted hsorted] at hfirst ⊢
  have hne : events ≠ [] := by
    rintro rfl
    cases hfirst
  rw [Trace.coverage_digest, ← buildForest_head shape.startedAt hne]
  exact ⟨max_eq_left hle, rfl⟩

/-! ## Clipped reads -/

/-- The first of the `k` oldest events whose parent is not among them; the first event where there
is none. -/
def firstUncovered (events : List LlmEvent) (k : ℕ) : ℕ :=
  ((List.range (min k events.length)).find? fun i =>
    (parentOf events i).all fun p => decide (k ≤ p)).getD 0

/-- An owner beyond the cap is not seen. -/
theorem spanOwner_take (events : List LlmEvent) (k : ℕ) (sid : String) :
    spanOwner (events.take k) sid = (spanOwner events sid).filter fun p => decide (p < k) := by
  unfold spanOwner
  induction events generalizing k with
  | nil => simp
  | cons ev events ih =>
    cases k with
    | zero => cases hfind : (ev :: events).findIdx? fun ev => ev.spanId == some sid <;> simp
    | succ k =>
      rw [List.take_succ_cons, List.findIdx?_cons, List.findIdx?_cons]
      by_cases hown : (ev.spanId == some sid) = true
      · simp [hown, Option.filter_some]
      · rw [if_neg hown, if_neg hown, ih]
        cases events.findIdx? fun ev => ev.spanId == some sid with
        | none => rfl
        | some p =>
          by_cases hp : p < k
          · simp [Option.filter_some, hp]
          · simp [Option.filter_some, hp]

theorem parentOf_take {events : List LlmEvent} {k i : ℕ} (hi : i < k) :
    parentOf (events.take k) i = (parentOf events i).filter fun p => decide (p < k) := by
  unfold parentOf
  rw [List.getElem?_take_of_lt hi]
  cases events[i]?.bind LlmEvent.parentSpanId with
  | none => rfl
  | some sid =>
    rw [Option.bind_some, Option.bind_some, spanOwner_take, Option.filter_filter,
      Option.filter_filter]
    congr 1
    funext p
    exact Bool.and_comm _ _

/-- **The first root of a clipped read** is its first event whose parent was cut off or is
missing. -/
theorem firstRoot_take (events : List LlmEvent) (k : ℕ) :
    firstRoot (events.take k) = firstUncovered events k := by
  unfold firstRoot firstUncovered rootsOf
  rw [List.length_take, ← List.head?_filter]
  congr 2
  apply List.filter_congr
  intro i hi
  have hik : i < k := lt_of_lt_of_le (List.mem_range.1 hi) (min_le_left _ _)
  rw [parentOf_take hik]
  cases parentOf events i with
  | none => rfl
  | some p =>
    by_cases hp : p < k
    · simp [Option.filter_some, hp]
    · simp [Option.filter_some, hp, not_lt.1 hp]

theorem firstUncovered_lt {events : List LlmEvent} {k : ℕ} (hk : 0 < k) (h : events ≠ []) :
    firstUncovered events k < min k events.length := by
  have hpos := List.length_pos_of_ne_nil h
  unfold firstUncovered
  cases hfind : (List.range (min k events.length)).find? fun i =>
      (parentOf events i).all fun p => decide (k ≤ p) with
  | none =>
    rw [Option.getD_none]
    exact lt_min hk hpos
  | some i => exact List.mem_range.1 (List.mem_of_find?_eq_some hfind)

end LightTrack
