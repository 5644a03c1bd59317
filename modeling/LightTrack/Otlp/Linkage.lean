import LightTrack.Lib.Ascent
import LightTrack.Otlp.Semconv
import Mathlib.Data.List.Induction

/-! # Links past dropped spans

The spans that are no LLM calls are dropped, and were often the parents of the ones that are.
An event whose parent was dropped is linked to the nearest ancestor that became an event.

* `reparent_keepsShape` : where the export's one table of parents agrees with the event's own trace
  on the way up, the link is the one that trace calls for.
-/

namespace LightTrack.Otlp

open Ascent

/-- `MAX_ANCESTOR_HOPS` -/
def MAX_ANCESTOR_HOPS : ℕ := 64

/-- A span's id and its parent's, of a span that carries both. -/
def linkOf (fs : FlatSpan) : Option (String × String) :=
  match nonempty fs.span.spanId, nonempty fs.span.parentSpanId with
  | some id, some parent => some (id, parent)
  | _, _ => none

/-- `parent_of`: the links of the whole export by span id, a later one replacing an earlier. -/
def parentOf (spans : List FlatSpan) (id : String) : Option String :=
  (spans.filterMap linkOf).reverse.lookup id

/-- `mapped`: the ids of the spans that became events. -/
def mappedIds (spans : List FlatSpan) (spanOfEvent : List ℕ) : List String :=
  spanOfEvent.filterMap fun i => spans[i]?.bind fun fs => nonempty fs.span.spanId

/-- `nearest_mapped_ancestor` -/
def nearestMappedAncestor (start : String) (parentOf : String → Option String)
    (mapped : List String) : Option String :=
  climb parentOf mapped.contains MAX_ANCESTOR_HOPS [] start

/-- The metadata with the exporter's own parent under `otel`, where there is room for it. -/
def withOriginalParent (metadata : Json) (original : String) : Json :=
  match metadata with
  | .obj fields =>
    match (Json.lookup "otel" fields).getD (.obj []) with
    | .obj otel =>
      .obj (Json.insertKey "otel"
        (.obj (Json.insertKey "otlp_parent_span_id" (.str original) otel)) fields)
    | _ => metadata
  | _ => metadata

/-- `record_original_parent` -/
def recordOriginalParent (ev : LlmEvent) (original : String) : LlmEvent :=
  { ev with metadata := withOriginalParent ev.metadata original }

/-- One event of `reparent_past_dropped_spans`. -/
def reparent (parentOf : String → Option String) (mapped : List String) (ev : LlmEvent) :
    LlmEvent :=
  match ev.parentSpanId with
  | none => ev
  | some parent =>
    -- the parent became an event: the link already holds
    if mapped.contains parent then ev
    else
      match nearestMappedAncestor parent parentOf mapped with
      | none => ev
      | some ancestor =>
        { recordOriginalParent ev parent with parentSpanId := some ancestor }

/-- `reparent_past_dropped_spans` -/
def reparentPastDroppedSpans (spans : List FlatSpan) (events : List LlmEvent)
    (spanOfEvent : List ℕ) : List LlmEvent :=
  events.map (reparent (parentOf spans) (mappedIds spans spanOfEvent))

/-! ## The export's topology -/

/-- A span of trace `t` is `c` and names the parent `b`. -/
def LinkIn (spans : List FlatSpan) (t : Option String) (c b : String) : Prop :=
  ∃ fs ∈ spans, nonempty fs.span.traceId = t ∧ linkOf fs = some (c, b)

/-- A span `c` of trace `t` becomes an event. -/
def MapsIn (spans : List FlatSpan) (t : Option String) (c : String) : Prop :=
  ∃ fs ∈ spans, nonempty fs.span.traceId = t ∧ nonempty fs.span.spanId = some c ∧ maps fs = true

/-- A span `c` of some trace becomes an event. -/
def MapsAnywhere (spans : List FlatSpan) (c : String) : Prop := ∃ t, MapsIn spans t c

/-- Of the spans `c` that name a parent, whatever their trace, the last one names `b`. -/
def LastLink (spans : List FlatSpan) (c b : String) : Prop :=
  ∃ pre fs post, spans = pre ++ fs :: post ∧ linkOf fs = some (c, b) ∧
    ∀ fs' ∈ post, ∀ b', linkOf fs' ≠ some (c, b')

/-- Another span `c` of the trace of `fs` becomes an event. -/
def ProperIn (spans : List FlatSpan) (fs : FlatSpan) (c : String) : Prop :=
  MapsIn spans (nonempty fs.span.traceId) c ∧ nonempty fs.span.spanId ≠ some c

/-- `a` is the nearest ancestor of `fs`, above its parent `p` in its own trace, that becomes an
event. -/
def NearestMapped (spans : List FlatSpan) (fs : FlatSpan) (p a : String) : Prop :=
  Nearest (LinkIn spans (nonempty fs.span.traceId)) (ProperIn spans fs) MAX_ANCESTOR_HOPS p a

/-- What is to become of the event `ev` of span `fs`. -/
structure KeepsShape (spans : List FlatSpan) (fs : FlatSpan) (ev ev' : LlmEvent) : Prop where
  kept : (∀ p, ev.parentSpanId = some p → MapsIn spans (nonempty fs.span.traceId) p ∨
    ∀ a, ¬ NearestMapped spans fs p a) → ev' = ev
  moved : ∀ p a, ev.parentSpanId = some p → ¬ MapsIn spans (nonempty fs.span.traceId) p →
    NearestMapped spans fs p a →
      ev' = { ev with parentSpanId := some a, metadata := ev'.metadata } ∧
        (ev'.metadata.get "otel").bind (Json.get "otlp_parent_span_id") = some (.str p)
  notOwn : ∀ c, nonempty fs.span.spanId = some c → ev'.parentSpanId = some c → ev' = ev
  sameTrace : ∀ a, ev'.parentSpanId = some a →
    ev' = ev ∨ MapsIn spans (nonempty fs.span.traceId) a

/-- On the way up from the parent `p` of `fs`, to its nearest ancestor that maps, ids mean in the
whole export what they mean in the trace of `fs`: a span maps, and has its parents, in this trace,
and the way does not lead back to `fs`. -/
structure OwnWay (spans : List FlatSpan) (fs : FlatSpan) (p : String) : Prop where
  parent : MapsAnywhere spans p ↔ MapsIn spans (nonempty fs.span.traceId) p
  way : ¬ MapsAnywhere spans p → ∀ j, j < MAX_ANCESTOR_HOPS → ∀ c,
    Above (LinkIn spans (nonempty fs.span.traceId)) j p c →
    Bare (LinkIn spans (nonempty fs.span.traceId)) (ProperIn spans fs) j p →
      (∀ b, LinkIn spans (nonempty fs.span.traceId) c b ↔ LastLink spans c b) ∧
        ∀ b, LinkIn spans (nonempty fs.span.traceId) c b → (MapsAnywhere spans b ↔ ProperIn spans fs b)

/-- Relinking changes a parent and its provenance, not who an event is. -/
theorem reparent_ids (parentOf : String → Option String) (mapped : List String) (ev : LlmEvent) :
    (reparent parentOf mapped ev).id = ev.id ∧ (reparent parentOf mapped ev).ts = ev.ts ∧
      (reparent parentOf mapped ev).traceId = ev.traceId ∧
      (reparent parentOf mapped ev).spanId = ev.spanId := by
  unfold reparent
  cases ev.parentSpanId with
  | none => exact ⟨rfl, rfl, rfl, rfl⟩
  | some p =>
    simp only
    split_ifs
    · exact ⟨rfl, rfl, rfl, rfl⟩
    · cases nearestMappedAncestor p parentOf mapped with
      | none => exact ⟨rfl, rfl, rfl, rfl⟩
      | some a => exact ⟨rfl, rfl, rfl, rfl⟩

section Tables

variable {spans : List FlatSpan}

theorem parentOf_eq_some_iff {c b : String} :
    parentOf spans c = some b ↔ LastLink spans c b := by
  unfold parentOf
  induction spans using List.reverseRecOn with
  | nil =>
    constructor
    · intro h
      cases h
    · rintro ⟨pre, fs, post, hnil, -⟩
      simp at hnil
  | append_singleton spans fs ih =>
    -- the last span decides, unless it is another one or names no parent
    have hsplit : LastLink (spans ++ [fs]) c b ↔
        linkOf fs = some (c, b) ∨ ((∀ b', linkOf fs ≠ some (c, b')) ∧ LastLink spans c b) := by
      constructor
      · rintro ⟨pre, fs', post, heq, hlink, hlast⟩
        rcases List.eq_nil_or_concat post with rfl | ⟨post, last, rfl⟩
        · rw [List.append_singleton_inj] at heq
          exact .inl (heq.2 ▸ hlink)
        · rw [List.concat_eq_append] at heq hlast
          rw [← List.cons_append, ← List.append_assoc, List.append_singleton_inj] at heq
          rcases heq with ⟨rfl, rfl⟩
          refine .inr ⟨hlast fs (by simp), pre, fs', post, rfl, hlink, ?_⟩
          exact fun fs'' hmem => hlast fs'' (List.mem_append_left _ hmem)
      · rintro (hlink | ⟨hother, pre, fs', post, rfl, hlink, hlast⟩)
        · exact ⟨spans, fs, [], rfl, hlink, fun _ h => absurd h List.not_mem_nil⟩
        · refine ⟨pre, fs', post ++ [fs], by simp, hlink, ?_⟩
          intro fs'' hmem
          rcases List.mem_append.1 hmem with hmem | hmem
          · exact hlast fs'' hmem
          · rw [List.mem_singleton.1 hmem]
            exact hother
    rw [hsplit, ← ih, List.filterMap_append, List.reverse_append]
    cases hlink : linkOf fs with
    | none => simp [hlink]
    | some kv =>
      rcases kv with ⟨c', b'⟩
      by_cases hc : c' = c
      · subst hc
        simp [hlink]
      · have hne : (c == c') = false := beq_false_of_ne (Ne.symm hc)
        simp [hlink, List.lookup_cons, hne, hc]

end Tables

section Event

variable {tx : Texts} {spans : List FlatSpan} {fs : FlatSpan} {r : MapReadings} {ev : LlmEvent}
  {mapped : List String}

theorem withOriginalParent_of_otel {fields otel : List (String × Json)}
    (hotel : Json.lookup "otel" fields = some (.obj otel)) (p : String) :
    ((withOriginalParent (.obj fields) p).get "otel").bind (Json.get "otlp_parent_span_id") =
      some (.str p) := by
  unfold withOriginalParent
  simp only [hotel, Option.getD_some]
  rw [Json.get_obj, Json.lookup_insertKey_self]
  exact Json.lookup_insertKey_self _ _ _

/-- The provenance of an event has room for its original parent. -/
theorem MapsTo.originalParent (h : MapsTo tx fs r ev) (p : String) :
    ((recordOriginalParent ev p).metadata.get "otel").bind (Json.get "otlp_parent_span_id") =
      some (.str p) := by
  rcases exists_otel_metadataOf tx fs with ⟨otel, hotel⟩
  have hlookup : Json.lookup "otel" [("otel", Json.obj otel)] = some (.obj otel) := by
    rw [Json.lookup_cons]
    exact if_pos rfl
  show ((withOriginalParent ev.metadata p).get "otel").bind _ = _
  rw [h.metadata, hotel]
  exact withOriginalParent_of_otel hlookup p

/-- The climb through the table ends at the nearest ancestor of the event's own trace. -/
theorem nearestMappedAncestor_iff {p : String} (h : OwnWay spans fs p)
    (hmapped : ∀ c, c ∈ mapped ↔ MapsAnywhere spans c) (hp : p ∉ mapped) (a : String) :
    nearestMappedAncestor p (parentOf spans) mapped = some a ↔ NearestMapped spans fs p a := by
  refine Follows.climb_eq_some_iff ?_ a
  intro j hj c hup hbare
  have hway := h.way (fun hmaps => hp ((hmapped p).2 hmaps)) j hj c hup hbare
  refine ⟨fun b => (hway.1 b).trans parentOf_eq_some_iff.symm, fun b hlink => ?_⟩
  rw [List.contains_iff_mem, hmapped b]
  exact hway.2 b hlink

/-- **An event is linked as its own trace calls for.** -/
theorem reparent_keepsShape (h : MapsTo tx fs r ev)
    (hway : ∀ p, ev.parentSpanId = some p → OwnWay spans fs p)
    (hmapped : ∀ c, c ∈ mapped ↔ MapsAnywhere spans c) :
    KeepsShape spans fs ev (reparent (parentOf spans) mapped ev) := by
  have hkept : (∀ p, ev.parentSpanId = some p → MapsIn spans (nonempty fs.span.traceId) p ∨
      ∀ a, ¬ NearestMapped spans fs p a) → reparent (parentOf spans) mapped ev = ev := by
    intro hno
    unfold reparent
    cases hp : ev.parentSpanId with
    | none => rfl
    | some p =>
      simp only
      split_ifs with hmem
      · rfl
      · have hmem' : p ∉ mapped := fun hp => hmem (List.contains_iff_mem.2 hp)
        cases hnear : nearestMappedAncestor p (parentOf spans) mapped with
        | none => rfl
        | some a =>
          rcases hno p hp with hin | hnone
          · exact absurd ((hmapped p).2 ⟨_, hin⟩) hmem'
          · exact absurd ((nearestMappedAncestor_iff (hway p hp) hmapped hmem' a).1 hnear) (hnone a)
  have hmoved : ∀ p a, ev.parentSpanId = some p → ¬ MapsIn spans (nonempty fs.span.traceId) p →
      NearestMapped spans fs p a →
        reparent (parentOf spans) mapped ev =
          { recordOriginalParent ev p with parentSpanId := some a } := by
    intro p a hp hnot hnear
    have hmem : p ∉ mapped := fun hmem => hnot ((hway p hp).parent.1 ((hmapped p).1 hmem))
    have hclimb := (nearestMappedAncestor_iff (hway p hp) hmapped hmem a).2 hnear
    unfold reparent
    rw [hp]
    simp only
    rw [if_neg (fun h => hmem (List.contains_iff_mem.1 h)), hclimb]
  -- what an event that is not as it was is linked to
  have hcase : reparent (parentOf spans) mapped ev = ev ∨
      ∃ a, ProperIn spans fs a ∧
        (reparent (parentOf spans) mapped ev).parentSpanId = some a := by
    by_cases hno : ∀ p, ev.parentSpanId = some p → MapsIn spans (nonempty fs.span.traceId) p ∨
        ∀ a, ¬ NearestMapped spans fs p a
    · exact .inl (hkept hno)
    · push Not at hno
      rcases hno with ⟨p, hp, hnot, a, hnear⟩
      have hgoal := hnear
      rcases hgoal with ⟨-, -, -, hproper, -⟩
      exact .inr ⟨a, hproper, by rw [hmoved p a hp hnot hnear]⟩
  refine ⟨hkept, ?_, ?_, ?_⟩
  · intro p a hp hnot hnear
    rw [hmoved p a hp hnot hnear]
    exact ⟨rfl, h.originalParent p⟩
  · intro c hc hparent
    rcases hcase with hsame | ⟨a, hproper, ha⟩
    · exact hsame
    · rw [ha] at hparent
      exact absurd (hc.trans hparent.symm) hproper.2
  · intro a ha
    rcases hcase with hsame | ⟨a', hproper, ha'⟩
    · exact .inl hsame
    · rw [ha'] at ha
      exact .inr (Option.some.inj ha ▸ hproper.1)

/-- The new link of an event runs along the links of its own trace. -/
theorem KeepsShape.transGen {ev' : LlmEvent} (h : KeepsShape spans fs ev ev')
    (hmaps : MapsTo tx fs r ev) (hfs : fs ∈ spans) {c a : String}
    (hc : nonempty fs.span.spanId = some c) (ha : ev'.parentSpanId = some a) :
    Relation.TransGen (LinkIn spans (nonempty fs.span.traceId)) c a := by
  have hlink : ∀ p, ev.parentSpanId = some p → LinkIn spans (nonempty fs.span.traceId) c p := by
    intro p hp
    refine ⟨fs, hfs, rfl, ?_⟩
    unfold linkOf
    rw [hc, ← hmaps.parentSpanId, hp]
  by_cases hno : ∀ p, ev.parentSpanId = some p → MapsIn spans (nonempty fs.span.traceId) p ∨
      ∀ a, ¬ NearestMapped spans fs p a
  · rw [h.kept hno] at ha
    exact .single (hlink a ha)
  · push Not at hno
    rcases hno with ⟨p, hp, hnot, a', hnear⟩
    rw [(h.moved p a' hp hnot hnear).1] at ha
    rcases Option.some.inj ha with rfl
    exact Nearest.transGen (hlink p hp) hnear

end Event

end LightTrack.Otlp
