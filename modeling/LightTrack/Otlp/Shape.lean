import LightTrack.Otlp.Traces

/-! # The shape of a trace

What becomes of the links of an export, trace by trace, when the spans that are no LLM calls are
dropped from it.

* `relinked_keep_shape` : an event is linked as its own trace calls for where the ids on its way
  up are its own trace's; every span is answered once,
* `relinked_across_traces` : an export in which they are not.
-/

namespace LightTrack.Otlp

open Ascent

/-- An event of trace `t` is `c` and its parent is `b`. -/
def EventLink (events : List LlmEvent) (t : Option String) (c b : String) : Prop :=
  ∃ ev ∈ events, ev.traceId = t ∧ ev.spanId = some c ∧ ev.parentSpanId = some b

section Relinked

variable {tx : Texts} {defaultProject : Option String} {spans : List FlatSpan}
  {rs : ℕ → SpanReadings}

/-- The ids that the links stop at are those of the spans that map. -/
theorem mem_mappedIds {c : String} :
    c ∈ mappedIds spans (spanOfEvent tx defaultProject spans rs) ↔ MapsAnywhere spans c := by
  unfold mappedIds
  rw [List.mem_filterMap]
  constructor
  · rintro ⟨i, hi, hid⟩
    rcases mem_spanOfEvent.1 hi with ⟨fs, ev, hget, hmap⟩
    rw [hget, Option.bind_some] at hid
    exact ⟨_, fs, List.mem_of_getElem? hget, rfl, hid, (mapSpan_isOk_iff _ _).1 ⟨ev, hmap⟩⟩
  · rintro ⟨t, fs, hmem, -, hid, hmaps⟩
    rcases List.mem_iff_getElem?.1 hmem with ⟨i, hget⟩
    have hok : ∃ ev, mapSpan tx fs (rs i).mapping defaultProject = .ok ev :=
      (mapSpan_isOk_iff _ _).2 hmaps
    rcases hok with ⟨ev, hmap⟩
    refine ⟨i, mem_spanOfEvent.2 ⟨fs, ev, hget, hmap⟩, ?_⟩
    rw [hget, Option.bind_some]
    exact hid

/-- The events that are posted are the mapped ones, relinked. -/
theorem relinkedEvents_getElem? (k : ℕ) :
    (relinkedEvents tx defaultProject spans rs)[k]? =
      (mappedEvents tx defaultProject spans rs)[k]?.map fun x =>
        reparent (parentOf spans) (mappedIds spans (spanOfEvent tx defaultProject spans rs)) x.2 := by
  unfold relinkedEvents reparentPastDroppedSpans
  rw [List.getElem?_map, List.getElem?_map, Option.map_map]
  rfl

/-- The event of a span, before and after it is relinked. -/
theorem relinkedEvents_of_span {k i : ℕ} {fs : FlatSpan}
    (hk : (spanOfEvent tx defaultProject spans rs)[k]? = some i) (hget : spans[i]? = some fs) :
    ∃ ev, mapSpan tx fs (rs i).mapping defaultProject = .ok ev ∧
      (relinkedEvents tx defaultProject spans rs)[k]? =
        some (reparent (parentOf spans)
          (mappedIds spans (spanOfEvent tx defaultProject spans rs)) ev) := by
  unfold spanOfEvent at hk
  rw [List.getElem?_map, Option.map_eq_some_iff] at hk
  rcases hk with ⟨⟨i', ev⟩, hx, rfl⟩
  rcases mem_mappedEvents.1 (List.mem_of_getElem? hx) with ⟨fs', hget', hmap⟩
  rw [hget] at hget'
  rcases Option.some.inj hget' with rfl
  refine ⟨ev, hmap, ?_⟩
  rw [relinkedEvents_getElem?, hx]
  rfl

/-- A relinked event is that of a span. -/
theorem exists_span_of_mem_relinkedEvents {ev' : LlmEvent}
    (h : ev' ∈ relinkedEvents tx defaultProject spans rs) :
    ∃ i fs ev, spans[i]? = some fs ∧ mapSpan tx fs (rs i).mapping defaultProject = .ok ev ∧
      ev' = reparent (parentOf spans)
        (mappedIds spans (spanOfEvent tx defaultProject spans rs)) ev := by
  rcases List.mem_iff_getElem?.1 h with ⟨k, hk⟩
  rw [relinkedEvents_getElem?, Option.map_eq_some_iff] at hk
  rcases hk with ⟨⟨i, ev⟩, hx, heq⟩
  rcases mem_mappedEvents.1 (List.mem_of_getElem? hx) with ⟨fs, hget, hmap⟩
  exact ⟨i, fs, ev, hget, hmap, heq.symm⟩

/-- The links of the events run along those of their spans. -/
theorem EventLink.transGen
    (hway : ∀ fs ∈ spans, maps fs = true → ∀ p, nonempty fs.span.parentSpanId = some p →
      OwnWay spans fs p) {t : Option String} {c a : String}
    (h : EventLink (relinkedEvents tx defaultProject spans rs) t c a) :
    Relation.TransGen (LinkIn spans t) c a := by
  rcases h with ⟨ev', hmem, ht, hc, ha⟩
  rcases exists_span_of_mem_relinkedEvents hmem with ⟨i, fs, ev, hget, hmap, rfl⟩
  have hmaps := mapSpan_mapsTo hmap
  have hfs := List.mem_of_getElem? hget
  rcases reparent_ids (parentOf spans)
    (mappedIds spans (spanOfEvent tx defaultProject spans rs)) ev with ⟨-, -, htrace, hspan⟩
  rw [htrace, hmaps.traceId] at ht
  rw [hspan, hmaps.spanId] at hc
  have hown : ∀ p, ev.parentSpanId = some p → OwnWay spans fs p := by
    intro p hp
    rw [hmaps.parentSpanId] at hp
    exact hway fs hfs ((mapSpan_isOk_iff _ _).1 ⟨ev, hmap⟩) p hp
  have hmapped : ∀ c, c ∈ mappedIds spans (spanOfEvent tx defaultProject spans rs) ↔
      MapsAnywhere spans c := fun c => mem_mappedIds
  have hshape := reparent_keepsShape hmaps hown hmapped
  rw [← ht]
  exact hshape.transGen hmaps hfs hc ha

end Relinked

/-- **Relinking keeps the shape of each trace**, where ids mean in the whole export what they mean
in that trace, on the way from an event's parent to its nearest ancestor that maps: each event is
linked as its own trace calls for, and links that run in no circle in the export run in none among
the events. However that is, the response lists every span once under its own index. -/
theorem relinked_keep_shape (tx : Texts) (defaultProject : Option String) (spans : List FlatSpan)
    (rs : ℕ → SpanReadings) :
    (∀ (k i : ℕ) (fs : FlatSpan), (spanOfEvent tx defaultProject spans rs)[k]? = some i → spans[i]? = some fs →
      ∃ ev ev', mapSpan tx fs (rs i).mapping defaultProject = .ok ev ∧
        (relinkedEvents tx defaultProject spans rs)[k]? = some ev' ∧
        ((∀ p, nonempty fs.span.parentSpanId = some p → OwnWay spans fs p) →
          KeepsShape spans fs ev ev')) ∧
      ((∀ fs ∈ spans, maps fs = true → ∀ p, nonempty fs.span.parentSpanId = some p →
          OwnWay spans fs p) →
        (∀ t c, ¬ Relation.TransGen (LinkIn spans t) c c) →
          ∀ t c, ¬ Relation.TransGen (EventLink (relinkedEvents tx defaultProject spans rs) t) c c) ∧
      ∀ (env : IngestEnv) (principal : Principal) (req : ExportTraceServiceRequest) (btx : BatchTx)
        (s s' : Service) (resp : OtlpResponse) (p : Proximity), flatten req = spans →
        postTraces tx env principal defaultProject req rs btx s = (.ok (resp, p), s') →
          resp.results.map SpanOutcome.index = List.range spans.length ∧
            (∀ o ∈ resp.results, ∃ fs, spans[o.index]? = some fs ∧ o.spanId = fs.span.spanId) ∧
            resp.accepted + resp.unmapped + resp.rejected + resp.invalid = spans.length := by
  refine ⟨?_, ?_, ?_⟩
  · intro k i fs hk hget
    rcases relinkedEvents_of_span hk hget with ⟨ev, hmap, hrelinked⟩
    refine ⟨ev, _, hmap, hrelinked, fun hway => ?_⟩
    have hmaps := mapSpan_mapsTo hmap
    refine reparent_keepsShape hmaps ?_ fun c => mem_mappedIds
    intro p hp
    rw [hmaps.parentSpanId] at hp
    exact hway p hp
  · intro hway hacyclic t c hcycle
    -- a circle among the events is one among their spans
    have hlinks : EventLink (relinkedEvents tx defaultProject spans rs) t ≤
        Relation.TransGen (LinkIn spans t) := fun _ _ hlink => hlink.transGen hway
    exact hacyclic t c (Relation.TransGen.closed hlinks c c hcycle)
  · intro env principal req btx s s' resp p hspans hpost
    subst hspans
    exact postTraces_lists hpost

/-! ## Exports -/

/-- No number is written as a text, and no text is JSON. -/
def plainTexts : Texts where
  parseI128 := fun _ => none
  parseU64 := fun _ => none
  parseF64 := fun _ => none
  fromStr := fun _ => none
  f64Text := fun _ => ""

/-- Every clock reads the epoch. -/
def epochReadings (_ : ℕ) : SpanReadings where
  mapping := { started := 0, received := 0, newId := "" }
  door := { parsed := 0, prepared := 0, stored := 0, settled := 0, newId := "" }

/-- A span that is an LLM call. -/
def callSpan (trace id : String) (parent : Option String) : FlatSpan where
  span := { traceId := some trace, spanId := some id, parentSpanId := parent }
  attrs := [("gen_ai.request.model", .mk (some "gpt-4o") none none none none none)]

/-- A span that is none. -/
def toolSpan (trace id : String) (parent : Option String) : FlatSpan where
  span := { traceId := some trace, spanId := some id, parentSpanId := parent }

/-- A call under a tool under a call. -/
def nested : List FlatSpan :=
  [callSpan "t" "a" (some "p"), toolSpan "t" "p" (some "r"), callSpan "t" "r" none]

/-- The id of the tool in the first trace is that of a tool in the second. -/
def crossing : List FlatSpan :=
  [callSpan "t1" "a" (some "p"), toolSpan "t1" "p" none, toolSpan "t2" "p" (some "x"),
    callSpan "t2" "x" none]

/-- A call and a tool that are each other's parents. -/
def circular : List FlatSpan := [callSpan "t" "a" (some "p"), toolSpan "t" "p" (some "a")]

/-- The only link of the tool is the one to the call above it. -/
theorem nested_linkIn_iff (b : String) : LinkIn nested (some "t") "p" b ↔ b = "r" := by
  have hcall : linkOf (callSpan "t" "a" (some "p")) = some ("a", "p") := by decide +kernel
  have htool : linkOf (toolSpan "t" "p" (some "r")) = some ("p", "r") := by decide +kernel
  have hroot : linkOf (callSpan "t" "r" none) = none := by decide +kernel
  have htrace : nonempty (toolSpan "t" "p" (some "r")).span.traceId = some "t" := by decide +kernel
  unfold LinkIn nested
  simp [hcall, htool, hroot, htrace, eq_comm]

theorem nested_ownWay : OwnWay nested (callSpan "t" "a" (some "p")) "p" := by
  have htrace : nonempty (callSpan "t" "a" (some "p")).span.traceId = some "t" := by decide +kernel
  have hnot : ∀ t, ¬ MapsIn nested t "p" := by
    rintro t ⟨fs, hfs, -, hid, hmaps⟩
    have hnone : ∀ fs ∈ nested, nonempty fs.span.spanId = some "p" → maps fs = false := by
      decide +kernel
    rw [hnone fs hfs hid] at hmaps
    cases hmaps
  have hroot : ProperIn nested (callSpan "t" "a" (some "p")) "r" := by
    unfold ProperIn MapsIn
    decide +kernel
  refine ⟨⟨fun ⟨t, h⟩ => absurd h (hnot t), fun h => absurd h (hnot _)⟩, ?_⟩
  rintro - j - c hup hbare
  rw [htrace] at hup hbare ⊢
  have hlink : Above (LinkIn nested (some "t")) 1 "p" "r" :=
    .step (.refl "p") ((nested_linkIn_iff "r").2 rfl)
  cases hup with
  | refl =>
    refine ⟨fun b => ?_, fun b hb => ?_⟩
    · have htable : parentOf nested "p" = some "r" := by decide +kernel
      rw [nested_linkIn_iff, ← parentOf_eq_some_iff, htable, Option.some.injEq, eq_comm]
    · rcases (nested_linkIn_iff b).1 hb with rfl
      exact ⟨fun _ => hroot, fun _ => ⟨_, hroot.1⟩⟩
  | step hup hrest =>
    -- the way ends at the call above the tool
    exact absurd hroot (hbare 0 (Nat.succ_pos _) "r" hlink)

/-- The call is linked to the call above the tool. -/
theorem relinked_keep_shape_nested :
    ∃ ev ev', mapSpan plainTexts (callSpan "t" "a" (some "p")) (epochReadings 0).mapping none =
        .ok ev ∧
      (relinkedEvents plainTexts none nested epochReadings)[0]? = some ev' ∧
      KeepsShape nested (callSpan "t" "a" (some "p")) ev ev' ∧ ev'.parentSpanId = some "r" := by
  have hspan : (spanOfEvent plainTexts none nested epochReadings)[0]? = some 0 := by decide +kernel
  rcases (relinked_keep_shape plainTexts none nested epochReadings).1 0 0 _ hspan rfl with
    ⟨ev, ev', hmap, hrelinked, hshape⟩
  have hparent : ((relinkedEvents plainTexts none nested epochReadings)[0]?.bind fun ev =>
      ev.parentSpanId) = some "r" := by decide +kernel
  rw [hrelinked, Option.bind_some] at hparent
  refine ⟨ev, ev', hmap, hrelinked, hshape fun p hp => ?_, hparent⟩
  have hp' : nonempty (callSpan "t" "a" (some "p")).span.parentSpanId = some "p" := by
    decide +kernel
  rw [hp'] at hp
  rcases Option.some.inj hp with rfl
  exact nested_ownWay

/-- **A call is linked into another trace** where a tool above it shares its id with a span there,
and one is made its own parent where it and a tool are each other's. -/
theorem relinked_across_traces :
    (∃ ev ev', mapSpan plainTexts (callSpan "t1" "a" (some "p")) (epochReadings 0).mapping none =
        .ok ev ∧
      (relinkedEvents plainTexts none crossing epochReadings)[0]? = some ev' ∧
      ¬ KeepsShape crossing (callSpan "t1" "a" (some "p")) ev ev') ∧
      ∃ ev ev', mapSpan plainTexts (callSpan "t" "a" (some "p")) (epochReadings 0).mapping none =
          .ok ev ∧
        (relinkedEvents plainTexts none circular epochReadings)[0]? = some ev' ∧
        ¬ KeepsShape circular (callSpan "t" "a" (some "p")) ev ev' := by
  constructor
  · have hspan : (spanOfEvent plainTexts none crossing epochReadings)[0]? = some 0 := by
      decide +kernel
    rcases relinkedEvents_of_span hspan rfl with ⟨ev, hmap, hrelinked⟩
    refine ⟨ev, _, hmap, hrelinked, fun h => ?_⟩
    have hparent : ((relinkedEvents plainTexts none crossing epochReadings)[0]?.bind fun ev =>
        ev.parentSpanId) = some "x" := by decide +kernel
    rw [hrelinked, Option.bind_some] at hparent
    rcases h.sameTrace "x" hparent with hsame | hmaps
    · rw [hsame, (mapSpan_mapsTo hmap).parentSpanId] at hparent
      revert hparent
      decide +kernel
    · revert hmaps
      unfold MapsIn
      decide +kernel
  · have hspan : (spanOfEvent plainTexts none circular epochReadings)[0]? = some 0 := by
      decide +kernel
    rcases relinkedEvents_of_span hspan rfl with ⟨ev, hmap, hrelinked⟩
    refine ⟨ev, _, hmap, hrelinked, fun h => ?_⟩
    have hparent : ((relinkedEvents plainTexts none circular epochReadings)[0]?.bind fun ev =>
        ev.parentSpanId) = some "a" := by decide +kernel
    rw [hrelinked, Option.bind_some] at hparent
    have hsame := h.notOwn "a" (by decide +kernel) hparent
    rw [hsame, (mapSpan_mapsTo hmap).parentSpanId] at hparent
    revert hparent
    decide +kernel

end LightTrack.Otlp
