import LightTrack.Api.Replay
import LightTrack.Lib.Slots
import LightTrack.Otlp.Linkage

/-! # The trace door

`POST /v1/traces`: map the spans, relink the events, hand them to the batch door, and answer for
every span under its own position.

* `postTraces_lists` : every span is answered once, under its own index, and the counts add up,
* `settledOutcomes_of_item` : what the batch answers about an event is answered about its span.
-/

namespace LightTrack.Otlp

/-! ## Requests and responses -/

/-- What handling one span reads: while it is mapped, and at the batch door. -/
structure SpanReadings where
  mapping : MapReadings
  door : Readings

/-- How one span fared. -/
inductive OutcomeStatus where
  | accepted
  | rejected
  | invalid
  | unmapped
  deriving DecidableEq

/-- `SpanOutcome` -/
structure SpanOutcome where
  index : ℕ
  spanId : Option String
  status : OutcomeStatus
  code : Option String
  reason : Option String
  id : Option String

/-- `PartialSuccess` -/
structure PartialSuccess where
  rejectedSpans : ℕ
  errorMessage : String

/-- `OtlpResponse`, with its `Summary`. -/
structure OtlpResponse where
  partialSuccess : Option PartialSuccess
  accepted : ℕ
  unmapped : ℕ
  rejected : ℕ
  invalid : ℕ
  results : List SpanOutcome

/-- `finish` -/
def finish (accepted : ℕ) (results : List SpanOutcome) : OtlpResponse :=
  let count := fun s => results.countP fun r => decide (r.status = s)
  let refused := count .unmapped + count .rejected + count .invalid
  { partialSuccess :=
      if 0 < refused then some
        { rejectedSpans := refused
          errorMessage := toString refused ++ " of " ++ toString results.length ++
            " span(s) not recorded (" ++ toString (count .unmapped) ++ " unmapped, " ++
            toString (count .rejected) ++ " limit-rejected, " ++ toString (count .invalid) ++
            " invalid) — see the `lighttrack.results` field for per-span codes" }
      else none
    accepted
    unmapped := count .unmapped
    rejected := count .rejected
    invalid := count .invalid
    results }

/-- The body a mapped event is posted as: every field is set. -/
def bodyOf (ev : LlmEvent) : IngestBody where
  id := some ev.id
  projectId := ev.projectId
  traceId := ev.traceId
  spanId := ev.spanId
  parentSpanId := ev.parentSpanId
  ts := some ev.ts
  provider := ev.provider
  model := ev.model
  name := ev.name
  usage := ev.usage
  costUsd := ev.costUsd
  latencyMs := ev.latencyMs
  status := ev.status
  error := ev.error
  input := ev.input
  output := ev.output
  tags := ev.tags
  source := ev.source
  metadata := ev.metadata

/-- The item of the batch a mapped event is posted as. -/
def entryOf (r : Readings) (ev : LlmEvent) : BatchEntry where
  body := bodyOf ev
  readings := { r with parsed := ev.receivedAt }

/-! ## The door -/

/-- The outcome of a span after the mapping: of one that did not map. -/
def openOutcome (i : ℕ) (fs : FlatSpan) : Except SpanReject LlmEvent → Option SpanOutcome
  | .ok _ => none
  | .error rej => some
    { index := i, spanId := fs.span.spanId, status := .unmapped
      code := some rej.code, reason := some rej.reason, id := none }

section Door

variable (tx : Texts) (defaultProject : Option String) (spans : List FlatSpan)
  (rs : ℕ → SpanReadings)

/-- Each span with its position, mapped. -/
def mapSpans : List ((ℕ × FlatSpan) × Except SpanReject LlmEvent) :=
  spans.zipIdx.map fun x => ((x.2, x.1), mapSpan tx x.1 (rs x.2).mapping defaultProject)

/-- The mapped events, each with the position of its span. -/
def mappedEvents : List (ℕ × LlmEvent) :=
  (mapSpans tx defaultProject spans rs).filterMap fun x =>
    match x.2 with
    | .ok ev => some (x.1.1, ev)
    | .error _ => none

/-- `span_of_event` -/
def spanOfEvent : List ℕ := (mappedEvents tx defaultProject spans rs).map Prod.fst

/-- The outcomes of the spans that did not map; the others are still open. -/
def openOutcomes : List (Option SpanOutcome) :=
  (mapSpans tx defaultProject spans rs).map fun x => openOutcome x.1.1 x.1.2 x.2

/-- The events as they are posted. -/
def relinkedEvents : List LlmEvent :=
  reparentPastDroppedSpans spans ((mappedEvents tx defaultProject spans rs).map Prod.snd)
    (spanOfEvent tx defaultProject spans rs)

/-- The batch the events are posted as. -/
def batchEntries : List BatchEntry :=
  ((spanOfEvent tx defaultProject spans rs).zip (relinkedEvents tx defaultProject spans rs)).map
    fun x => entryOf (rs x.1).door x.2

end Door

/-- The position a batch item answers for. -/
def itemIndex : BatchItem → ℕ
  | .accepted index .. => index
  | .rejected index .. => index
  | .invalid index .. => index

/-- The outcome of the span at position `i` whose event the batch answered with `item`. -/
def outcomeOf (i : ℕ) (fs : Option FlatSpan) (item : BatchItem) : SpanOutcome :=
  let spanId := fs.bind fun fs => fs.span.spanId
  match item with
  | .accepted _ id _ _ _ =>
    { index := i, spanId, status := .accepted, code := none, reason := none, id := some id }
  -- the prose of a limit's refusal is not modelled
  | .rejected _ id _ _ _ =>
    { index := i, spanId, status := .rejected, code := some ErrorCode.rateLimited.asStr
      reason := none, id := some id }
  | .invalid _ id r =>
    { index := i, spanId, status := .invalid, code := some r.code.asStr, reason := some r.message
      id }

/-- One answer of the batch, put to its span. -/
def settle (spans : List FlatSpan) (spanOfEvent : List ℕ) (acc : List (Option SpanOutcome) × ℕ)
    (item : BatchItem) : List (Option SpanOutcome) × ℕ :=
  match spanOfEvent[itemIndex item]? with
  | none => acc
  | some i =>
    let o := outcomeOf i spans[i]? item
    (acc.1.set i (some o), if o.status = .accepted then acc.2 + 1 else acc.2)

/-- `post_traces` -/
def postTraces (tx : Texts) (env : IngestEnv) (principal : Principal)
    (defaultProject : Option String) (req : ExportTraceServiceRequest) (rs : ℕ → SpanReadings)
    (btx : BatchTx) (s : Service) : Except Rejection (OtlpResponse × Proximity) × Service :=
  let spans := flatten req
  let outcomes := openOutcomes tx defaultProject spans rs
  let spanOf := spanOfEvent tx defaultProject spans rs
  if (relinkedEvents tx defaultProject spans rs).isEmpty then
    (.ok (finish 0 outcomes.reduceOption, {}), s)
  else
    match postBatch env principal (batchEntries tx defaultProject spans rs) btx s with
    | (.error r, s) => (.error r, s)
    | (.ok (items, proximity), s) =>
      let settled := items.foldl (settle spans spanOf) (outcomes, 0)
      (.ok (finish settled.2 settled.1.reduceOption, proximity), s)

/-! ## Positions -/

section Positions

variable {tx : Texts} {defaultProject : Option String} {spans : List FlatSpan}
  {rs : ℕ → SpanReadings}

theorem mapSpans_getElem? (i : ℕ) :
    (mapSpans tx defaultProject spans rs)[i]? =
      spans[i]?.map fun fs => ((i, fs), mapSpan tx fs (rs i).mapping defaultProject) := by
  unfold mapSpans
  rw [List.getElem?_map, List.getElem?_zipIdx, Option.map_map, Nat.zero_add]
  rfl

theorem mem_mapSpans {i : ℕ} {fs : FlatSpan} {res : Except SpanReject LlmEvent} :
    ((i, fs), res) ∈ mapSpans tx defaultProject spans rs ↔
      spans[i]? = some fs ∧ res = mapSpan tx fs (rs i).mapping defaultProject := by
  unfold mapSpans
  simp only [List.mem_map, Prod.mk.injEq, Prod.exists, List.mem_zipIdx_iff_getElem?]
  constructor
  · rintro ⟨fs', i', hget, ⟨rfl, rfl⟩, rfl⟩
    exact ⟨hget, rfl⟩
  · rintro ⟨hget, rfl⟩
    exact ⟨fs, i, hget, ⟨rfl, rfl⟩, rfl⟩

/-- The mapped events are those of the spans that map. -/
theorem mem_mappedEvents {i : ℕ} {ev : LlmEvent} :
    (i, ev) ∈ mappedEvents tx defaultProject spans rs ↔
      ∃ fs, spans[i]? = some fs ∧ mapSpan tx fs (rs i).mapping defaultProject = .ok ev := by
  unfold mappedEvents
  rw [List.mem_filterMap]
  constructor
  · rintro ⟨⟨⟨i', fs⟩, res⟩, hmem, hev⟩
    rcases mem_mapSpans.1 hmem with ⟨hget, hres⟩
    cases res with
    | error rej => cases hev
    | ok ev' =>
      rcases Option.some.inj hev with ⟨rfl, rfl⟩
      exact ⟨fs, hget, hres.symm⟩
  · rintro ⟨fs, hget, hmap⟩
    exact ⟨((i, fs), .ok ev), mem_mapSpans.2 ⟨hget, hmap.symm⟩, rfl⟩

theorem mem_spanOfEvent {i : ℕ} :
    i ∈ spanOfEvent tx defaultProject spans rs ↔
      ∃ fs ev, spans[i]? = some fs ∧ mapSpan tx fs (rs i).mapping defaultProject = .ok ev := by
  unfold spanOfEvent
  rw [List.mem_map]
  constructor
  · rintro ⟨⟨i', ev⟩, hmem, rfl⟩
    rcases mem_mappedEvents.1 hmem with ⟨fs, hget, hmap⟩
    exact ⟨fs, ev, hget, hmap⟩
  · rintro ⟨fs, ev, hget, hmap⟩
    exact ⟨(i, ev), mem_mappedEvents.2 ⟨fs, hget, hmap⟩, rfl⟩

/-- No two events are of one span. -/
theorem nodup_spanOfEvent : (spanOfEvent tx defaultProject spans rs).Nodup := by
  unfold spanOfEvent mappedEvents
  rw [List.Nodup, List.pairwise_map, List.pairwise_filterMap]
  have hindexes : (mapSpans tx defaultProject spans rs).map (fun x => x.1.1) =
      List.range spans.length := by
    unfold mapSpans
    rw [List.map_map, List.range_eq_range', ← List.zipIdx_map_snd 0 spans]
    rfl
  have hpair : (mapSpans tx defaultProject spans rs).Pairwise fun x y => x.1.1 ≠ y.1.1 := by
    rw [← List.pairwise_map, hindexes]
    exact List.nodup_range
  refine hpair.imp ?_
  rintro ⟨⟨i, fs⟩, res⟩ ⟨⟨i', fs'⟩, res'⟩ hne x hx y hy
  cases res with
  | error rej => cases hx
  | ok ev =>
    cases res' with
    | error rej => cases hy
    | ok ev' =>
      rw [← Option.some.inj hx, ← Option.some.inj hy]
      exact hne

theorem openOutcomes_getElem? (i : ℕ) :
    (openOutcomes tx defaultProject spans rs)[i]? =
      spans[i]?.map fun fs => openOutcome i fs (mapSpan tx fs (rs i).mapping defaultProject) := by
  unfold openOutcomes
  rw [List.getElem?_map, mapSpans_getElem?, Option.map_map]
  rfl

theorem length_openOutcomes :
    (openOutcomes tx defaultProject spans rs).length = spans.length := by
  unfold openOutcomes mapSpans
  rw [List.length_map, List.length_map, List.length_zipIdx]

theorem unmapped_of_mem_openOutcomes {o : SpanOutcome}
    (h : some o ∈ openOutcomes tx defaultProject spans rs) : o.status = .unmapped := by
  unfold openOutcomes at h
  rcases List.mem_map.1 h with ⟨⟨⟨i, fs⟩, res⟩, -, hopen⟩
  cases res with
  | ok ev => cases hopen
  | error rej =>
    rw [← Option.some.inj hopen]

end Positions

/-! ## The answers of the batch -/

/-- The answers of a batch are its items', in order. -/
theorem batchAnswers_indexes {t : EventTable}
    (prepared : List ((ℕ × BatchEntry) × Except Rejection LlmEvent))
    (admissions : List (Except StoreError Admission)) (l : RejectionLedger) (p : Proximity)
    (hlen : admissions.length = (validItems prepared).length) :
    (batchAnswers t prepared admissions l p).1.map itemIndex = prepared.map fun x => x.1.1 := by
  induction prepared generalizing admissions l p with
  | nil => rfl
  | cons x prepared ih =>
    rcases x with ⟨⟨i, e⟩, res⟩
    cases res with
    | error r => exact congrArg (i :: ·) (ih admissions l p hlen)
    | ok ev =>
      cases admissions with
      | nil => simp [validItems] at hlen
      | cons admission admissions =>
        have hrest : admissions.length = (validItems prepared).length := by
          simpa [validItems] using hlen
        have hitem : itemIndex (batchAnswer t i ev e.readings admission l).1 = i := by
          unfold batchAnswer
          cases admission with
          | ok a =>
            simp only
            split_ifs
            · rfl
            · rfl
          | error err =>
            cases err with
            | conflict message =>
              simp only
              cases replayOf t ev with
              | some stored => rfl
              | none => rfl
            | _ => rfl
        exact congrArg₂ List.cons hitem (ih admissions _ _ hrest)

section Batch

variable {env : IngestEnv} {principal : Principal} {entries : List BatchEntry} {btx : BatchTx}
  {s s' : Service} {items : List BatchItem} {p : Proximity}

/-- A batch that is answered is answered item by item. -/
theorem postBatch_indexes
    (h : postBatch env principal entries btx s = (.ok (items, p), s')) :
    items.map itemIndex = List.range entries.length := by
  rcases postBatch_cases env principal entries btx s with ⟨e, hrefused⟩ | hopen
  · rw [hrefused] at h
    cases h
  · cases hstore : batchStore env principal entries btx s with | mk admissions store =>
    cases hanswers : batchAnswers store.events (prepareBatch env principal entries) admissions
      s.rejections {} with | mk items' rest =>
    rw [postBatch_of_open hopen hstore hanswers] at h
    have hitems : items' = items := congrArg Prod.fst (Except.ok.inj (congrArg Prod.fst h))
    have hlen : admissions.length = (validItems (prepareBatch env principal entries)).length := by
      have hall : (batchStore env principal entries btx s).1.length =
          (validItems (prepareBatch env principal entries)).length := length_batchStore
      rw [← hall, hstore]
    have hindexes := batchAnswers_indexes (t := store.events) _ admissions s.rejections {} hlen
    rw [hanswers] at hindexes
    rw [← hitems, hindexes]
    unfold prepareBatch
    rw [List.map_map, List.range_eq_range', ← List.zipIdx_map_snd 0 entries]
    rfl

end Batch

/-! ## The response -/

/-- The answers of the batch, each with the position of its span. -/
def placed (spans : List FlatSpan) (spanOf : List ℕ) (items : List BatchItem) :
    List (ℕ × SpanOutcome) :=
  items.filterMap fun item =>
    spanOf[itemIndex item]?.map fun i => (i, outcomeOf i spans[i]? item)

/-- Settling fills the slots of the answered spans, and counts the accepted ones. -/
theorem foldl_settle (spans : List FlatSpan) (spanOf : List ℕ) (items : List BatchItem)
    (acc : List (Option SpanOutcome) × ℕ) :
    items.foldl (settle spans spanOf) acc =
      (Slots.fill acc.1 (placed spans spanOf items),
        acc.2 + (placed spans spanOf items).countP fun x => decide (x.2.status = .accepted)) := by
  induction items generalizing acc with
  | nil => rfl
  | cons item items ih =>
    rw [List.foldl_cons, ih]
    unfold placed settle
    cases hspan : spanOf[itemIndex item]? with
    | none =>
      rw [List.filterMap_cons_none (by rw [hspan]; rfl)]
    | some i =>
      rw [List.filterMap_cons_some (by rw [hspan]; rfl), List.countP_cons]
      refine Prod.ext rfl ?_
      simp only [decide_eq_true_eq]
      split_ifs
      · omega
      · omega

/-- Items that answer for every event in order put one answer to every span that mapped. -/
theorem placed_keys {spans : List FlatSpan} {spanOf : List ℕ} {items : List BatchItem}
    (h : items.map itemIndex = List.range spanOf.length) :
    (placed spans spanOf items).map Prod.fst = spanOf := by
  have hkeys : (placed spans spanOf items).map Prod.fst =
      (items.map itemIndex).filterMap fun k => spanOf[k]? := by
    unfold placed
    rw [List.map_filterMap, List.filterMap_map]
    refine congrArg (fun f => List.filterMap f items) (funext fun item => ?_)
    rw [Option.map_map]
    exact Option.map_id'
  have hget : (List.range spanOf.length).map (fun k => spanOf[k]?) = spanOf.map some := by
    refine List.ext_getElem (by simp) fun k hk hk' => ?_
    simp only [List.getElem_map, List.getElem_range]
    exact List.getElem?_eq_getElem _
  calc (placed spans spanOf items).map Prod.fst
      = (List.range spanOf.length).filterMap fun k => spanOf[k]? := by rw [hkeys, h]
    _ = ((List.range spanOf.length).map fun k => spanOf[k]?).filterMap id :=
        (List.filterMap_map (g := id)).symm
    _ = (spanOf.map some).filterMap id := by rw [hget]
    _ = spanOf := List.filterMap_map.trans List.filterMap_some

theorem countP_statuses (results : List SpanOutcome) :
    (results.countP fun r => decide (r.status = .accepted)) +
        (results.countP fun r => decide (r.status = .unmapped)) +
        (results.countP fun r => decide (r.status = .rejected)) +
        (results.countP fun r => decide (r.status = .invalid)) = results.length := by
  induction results with
  | nil => rfl
  | cons r results ih =>
    simp only [List.countP_cons, List.length_cons]
    cases r.status with
    | accepted => simp; omega
    | rejected => simp; omega
    | invalid => simp; omega
    | unmapped => simp; omega

section Settled

variable {tx : Texts} {defaultProject : Option String} {spans : List FlatSpan}
  {rs : ℕ → SpanReadings} {items : List BatchItem}

/-- What the answers put to the spans. -/
def settledOutcomes (tx : Texts) (defaultProject : Option String) (spans : List FlatSpan)
    (rs : ℕ → SpanReadings) (items : List BatchItem) : List (Option SpanOutcome) :=
  Slots.fill (openOutcomes tx defaultProject spans rs)
    (placed spans (spanOfEvent tx defaultProject spans rs) items)

theorem length_settledOutcomes :
    (settledOutcomes tx defaultProject spans rs items).length = spans.length :=
  (Slots.length_fill _ _).trans length_openOutcomes

variable (hitems : items.map itemIndex =
  List.range (spanOfEvent tx defaultProject spans rs).length)

include hitems

theorem nodup_placed :
    ((placed spans (spanOfEvent tx defaultProject spans rs) items).map Prod.fst).Nodup := by
  rw [placed_keys hitems]
  exact nodup_spanOfEvent

theorem open_of_placed {i : ℕ}
    (h : i ∈ (placed spans (spanOfEvent tx defaultProject spans rs) items).map Prod.fst) :
    (openOutcomes tx defaultProject spans rs)[i]? = some none := by
  rw [placed_keys hitems] at h
  rcases mem_spanOfEvent.1 h with ⟨fs, ev, hget, hmap⟩
  rw [openOutcomes_getElem?, hget, Option.map_some, hmap]
  rfl

/-- What the batch answered about an event is the outcome of its span. -/
theorem settledOutcomes_of_item {item : BatchItem} {i : ℕ} (hmem : item ∈ items)
    (hspan : (spanOfEvent tx defaultProject spans rs)[itemIndex item]? = some i) :
    (settledOutcomes tx defaultProject spans rs items)[i]? =
      some (some (outcomeOf i spans[i]? item)) := by
  have hplaced : (i, outcomeOf i spans[i]? item) ∈
      placed spans (spanOfEvent tx defaultProject spans rs) items := by
    refine List.mem_filterMap.2 ⟨item, hmem, ?_⟩
    rw [hspan]
    rfl
  refine Slots.getElem?_fill_of_mem hplaced (nodup_placed hitems) ?_
  have hopen := open_of_placed hitems (List.mem_map_of_mem hplaced)
  exact (List.getElem?_eq_some_iff.1 hopen).1

/-- Every span has an outcome in the end, that names its position and its id. -/
theorem settledOutcomes_full {i : ℕ} {fs : FlatSpan} (hget : spans[i]? = some fs) :
    ∃ o, (settledOutcomes tx defaultProject spans rs items)[i]? = some (some o) ∧
      o.index = i ∧ o.spanId = fs.span.spanId := by
  cases hmap : mapSpan tx fs (rs i).mapping defaultProject with
  | ok ev =>
    have hmem : i ∈ spanOfEvent tx defaultProject spans rs :=
      mem_spanOfEvent.2 ⟨fs, ev, hget, hmap⟩
    rcases List.mem_iff_getElem?.1 hmem with ⟨k, hk⟩
    have hk' : k ∈ items.map itemIndex := by
      rw [hitems]
      exact List.mem_range.2 (List.getElem?_eq_some_iff.1 hk).1
    rcases List.mem_map.1 hk' with ⟨item, hitem, rfl⟩
    refine ⟨_, settledOutcomes_of_item hitems hitem hk, ?_⟩
    rw [hget]
    cases item with
    | accepted => exact ⟨rfl, rfl⟩
    | rejected => exact ⟨rfl, rfl⟩
    | invalid => exact ⟨rfl, rfl⟩
  | error rej =>
    have hnot : i ∉ (placed spans (spanOfEvent tx defaultProject spans rs) items).map Prod.fst := by
      rw [placed_keys hitems]
      intro hmem
      rcases mem_spanOfEvent.1 hmem with ⟨fs', ev, hget', hok⟩
      rw [hget] at hget'
      rcases Option.some.inj hget' with rfl
      rw [hmap] at hok
      cases hok
    have hslot : (settledOutcomes tx defaultProject spans rs items)[i]? =
        (openOutcomes tx defaultProject spans rs)[i]? := Slots.getElem?_fill_of_notMem hnot
    rw [hslot, openOutcomes_getElem?, hget, Option.map_some, hmap]
    exact ⟨_, rfl, rfl, rfl⟩

theorem indexes_settledOutcomes :
    (settledOutcomes tx defaultProject spans rs items).reduceOption.map SpanOutcome.index =
      List.range spans.length := by
  have hlen : (settledOutcomes tx defaultProject spans rs items).length = spans.length :=
    length_settledOutcomes
  rw [← hlen]
  refine Slots.map_reduceOption_eq_range fun i hi => ?_
  rw [hlen] at hi
  rcases settledOutcomes_full hitems (List.getElem?_eq_getElem hi) with ⟨o, ho, hindex, -⟩
  exact ⟨o, ho, hindex⟩

/-- An outcome that is listed is that of the slot it names. -/
theorem settledOutcomes_of_mem {o : SpanOutcome}
    (ho : o ∈ (settledOutcomes tx defaultProject spans rs items).reduceOption) :
    (settledOutcomes tx defaultProject spans rs items)[o.index]? = some (some o) := by
  rcases List.mem_iff_getElem?.1 (List.reduceOption_mem_iff.1 ho) with ⟨i, hi⟩
  have hlt : i < spans.length := by
    have hlen : (settledOutcomes tx defaultProject spans rs items).length = spans.length :=
      length_settledOutcomes
    rw [← hlen]
    exact (List.getElem?_eq_some_iff.1 hi).1
  rcases settledOutcomes_full hitems (List.getElem?_eq_getElem hlt) with ⟨o', ho', hindex, -⟩
  rw [hi] at ho'
  rcases Option.some.inj (Option.some.inj ho') with rfl
  rw [hindex]
  exact hi

/-- The accepted spans are those whose events the batch accepted. -/
theorem countP_accepted_settledOutcomes :
    ((settledOutcomes tx defaultProject spans rs items).reduceOption.countP fun r =>
        decide (r.status = .accepted)) =
      (placed spans (spanOfEvent tx defaultProject spans rs) items).countP fun x =>
        decide (x.2.status = .accepted) := by
  have hperm := Slots.reduceOption_fill_perm (nodup_placed hitems)
    (fun i hi => open_of_placed hitems hi)
  have hopen : ((openOutcomes tx defaultProject spans rs).reduceOption.countP fun r =>
      decide (r.status = .accepted)) = 0 := by
    rw [List.countP_eq_zero]
    intro o ho hstatus
    have hunmapped := unmapped_of_mem_openOutcomes (List.reduceOption_mem_iff.1 ho)
    rw [hunmapped] at hstatus
    cases hstatus
  unfold settledOutcomes
  rw [hperm.countP_eq, List.countP_append, List.countP_map, hopen, Nat.add_zero]
  rfl

end Settled

section Response

variable {tx : Texts} {env : IngestEnv} {principal : Principal} {defaultProject : Option String}
  {req : ExportTraceServiceRequest} {rs : ℕ → SpanReadings} {btx : BatchTx} {s s' : Service}
  {resp : OtlpResponse} {p : Proximity}

theorem length_batchEntries {spans : List FlatSpan} :
    (batchEntries tx defaultProject spans rs).length =
      (spanOfEvent tx defaultProject spans rs).length := by
  unfold batchEntries relinkedEvents reparentPastDroppedSpans spanOfEvent
  simp

/-- The items behind an answered export: those of its batch, unless no span mapped. -/
def BatchAnswered (tx : Texts) (env : IngestEnv) (principal : Principal)
    (defaultProject : Option String) (spans : List FlatSpan) (rs : ℕ → SpanReadings)
    (btx : BatchTx) (s s' : Service) (items : List BatchItem) : Prop :=
  (relinkedEvents tx defaultProject spans rs = [] ∧ items = [] ∧ s' = s) ∨
    ∃ p, postBatch env principal (batchEntries tx defaultProject spans rs) btx s =
      (.ok (items, p), s')

/-- An answered export is answered by the outcomes of its spans, from the answers of a batch that
has one for every event. -/
theorem postTraces_eq_ok
    (h : postTraces tx env principal defaultProject req rs btx s = (.ok (resp, p), s')) :
    ∃ items, items.map itemIndex =
        List.range (spanOfEvent tx defaultProject (flatten req) rs).length ∧
      BatchAnswered tx env principal defaultProject (flatten req) rs btx s s' items ∧
      resp = finish
        ((placed (flatten req) (spanOfEvent tx defaultProject (flatten req) rs) items).countP
          fun x => decide (x.2.status = .accepted))
        (settledOutcomes tx defaultProject (flatten req) rs items).reduceOption := by
  unfold postTraces at h
  simp only at h
  split_ifs at h with hempty
  · refine ⟨[], ?_, .inl ⟨List.isEmpty_iff.1 hempty, rfl, (congrArg Prod.snd h).symm⟩, ?_⟩
    · rw [← length_batchEntries]
      unfold batchEntries
      rw [List.isEmpty_iff.1 hempty, List.zip_nil_right]
      rfl
    · exact (congrArg Prod.fst (Except.ok.inj (congrArg Prod.fst h))).symm
  · cases hbatch : postBatch env principal (batchEntries tx defaultProject (flatten req) rs) btx s with
    | mk answer s₁ =>
      rw [hbatch] at h
      cases answer with
      | error r => cases congrArg Prod.fst h
      | ok answer =>
        rcases answer with ⟨items, q⟩
        have hs : s₁ = s' := congrArg Prod.snd h
        refine ⟨items, ?_, .inr ⟨q, by rw [← hs, hbatch]⟩, ?_⟩
        · rw [postBatch_indexes hbatch, length_batchEntries]
        · simp only [foldl_settle, Nat.zero_add] at h
          exact (congrArg Prod.fst (Except.ok.inj (congrArg Prod.fst h))).symm

/-- **Every span is answered once**, under its own index and with its own id, and the counts of the
summary add up to the spans of the export. -/
theorem postTraces_lists
    (h : postTraces tx env principal defaultProject req rs btx s = (.ok (resp, p), s')) :
    resp.results.map SpanOutcome.index = List.range (flatten req).length ∧
      (∀ o ∈ resp.results, ∃ fs, (flatten req)[o.index]? = some fs ∧ o.spanId = fs.span.spanId) ∧
      resp.accepted + resp.unmapped + resp.rejected + resp.invalid = (flatten req).length := by
  rcases postTraces_eq_ok h with ⟨items, hitems, -, rfl⟩
  have hindexes := indexes_settledOutcomes hitems
  refine ⟨hindexes, ?_, ?_⟩
  · intro o ho
    have hindex : o.index ∈ List.range (flatten req).length := by
      rw [← hindexes]
      exact List.mem_map_of_mem ho
    have hget := List.getElem?_eq_getElem (List.mem_range.1 hindex)
    rcases settledOutcomes_full hitems hget with ⟨o', ho', -, hid⟩
    rw [settledOutcomes_of_mem hitems ho] at ho'
    rcases Option.some.inj (Option.some.inj ho') with rfl
    exact ⟨_, hget, hid⟩
  · have hlen : (settledOutcomes tx defaultProject (flatten req) rs items).reduceOption.length =
        (flatten req).length := by
      rw [← List.length_map, hindexes, List.length_range]
    have hcount := countP_statuses
      (settledOutcomes tx defaultProject (flatten req) rs items).reduceOption
    rw [hlen, countP_accepted_settledOutcomes hitems] at hcount
    exact hcount

end Response

end LightTrack.Otlp
