import LightTrack.Core.TraceTree
import LightTrack.Lib.Forest

/-! # The span forest

A span forest is a depth-first forest over the parent links: offered are the events without a parent
and then every event, oldest first.  So an event whose parent links lead to a cycle becomes a root
where it comes before everything above it, on the cycle or not.

* `buildForest_eq` : the spans are the nodes of a depth-first forest, labelled,
* `isRoot_iff` : which events become roots,
* `buildForest_isSpanForest` : every event is one node, at its place.
-/

namespace LightTrack

open Forest Forest.Rose

/-! ## Links -/

section Links

variable {events : List LlmEvent}

/-- **The first owner of a span id** is the first event that has it. -/
theorem spanOwner_eq_some_iff {sid : String} {p : ℕ} :
    spanOwner events sid = some p ↔
      ((events[p]?.bind LlmEvent.spanId) = some sid ∧
        ∀ q < p, (events[q]?.bind LlmEvent.spanId) ≠ some sid) := by
  unfold spanOwner
  rw [List.findIdx?_eq_some_iff_getElem]
  constructor
  · rintro ⟨hp, hown, hfirst⟩
    rw [List.getElem?_eq_getElem hp, Option.bind_some]
    refine ⟨by simpa using hown, ?_⟩
    intro q hq
    rw [List.getElem?_eq_getElem (hq.trans hp), Option.bind_some]
    simpa using hfirst q hq
  · rintro ⟨hown, hfirst⟩
    rcases Option.bind_eq_some_iff.1 hown with ⟨ev, hev, hsid⟩
    rcases List.getElem?_eq_some_iff.1 hev with ⟨hp, rfl⟩
    refine ⟨hp, by simpa using hsid, ?_⟩
    intro q hq
    have hne := hfirst q hq
    rw [List.getElem?_eq_getElem (hq.trans hp), Option.bind_some] at hne
    simpa using hne

/-- A parent is another event, the first that has the span id that is named. -/
theorem parentOf_eq_some_iff {i p : ℕ} :
    parentOf events i = some p ↔ p ≠ i ∧ ∃ sid,
      (events[i]?.bind LlmEvent.parentSpanId) = some sid ∧ spanOwner events sid = some p := by
  unfold parentOf
  rw [Option.filter_eq_some_iff, Option.bind_eq_some_iff, bne_iff_ne, and_comm]

/-- **The duplicate flag**: an earlier event has the span id. -/
theorem isDuplicate_iff {i : ℕ} :
    isDuplicate events i = true ↔ ∃ j < i, ∃ sid,
      (events[i]?.bind LlmEvent.spanId) = some sid ∧
        (events[j]?.bind LlmEvent.spanId) = some sid := by
  unfold isDuplicate
  cases hsid : events[i]?.bind LlmEvent.spanId with
  | none => simp
  | some sid =>
    rw [bne_iff_ne]
    have hfirst := @spanOwner_eq_some_iff events sid i
    constructor
    · intro hother
      by_contra hnone
      refine hother (hfirst.2 ⟨hsid, ?_⟩)
      intro q hq hqsid
      exact hnone ⟨q, hq, sid, rfl, hqsid⟩
    · rintro ⟨j, hj, sid', hsid', hjsid⟩ hown
      rw [Option.some.injEq] at hsid'
      subst hsid'
      exact (hfirst.1 hown).2 j hj hjsid

theorem lt_of_parentOf {i p : ℕ} (h : parentOf events i = some p) :
    i < events.length ∧ p < events.length := by
  rcases parentOf_eq_some_iff.1 h with ⟨-, sid, hsid, hown⟩
  have hin : ∀ {k : ℕ} {f : LlmEvent → Option String} {s : String},
      (events[k]?.bind f) = some s → k < events.length := by
    intro k f s hk
    rcases Option.bind_eq_some_iff.1 hk with ⟨ev, hev, -⟩
    exact (List.getElem?_eq_some_iff.1 hev).1
  exact ⟨hin hsid, hin (spanOwner_eq_some_iff.1 hown).1⟩

theorem mem_childrenOf {i p : ℕ} : i ∈ childrenOf events p ↔ parentOf events i = some p := by
  unfold childrenOf
  rw [List.mem_filter, List.mem_range, beq_iff_eq, and_iff_right_iff_imp]
  intro h
  exact (lt_of_parentOf h).1

theorem mem_rootsOf {i : ℕ} :
    i ∈ rootsOf events ↔ i < events.length ∧ parentOf events i = none := by
  unfold rootsOf
  rw [List.mem_filter, List.mem_range, Option.isNone_iff_eq_none]

/-- The events above an event: its parent, the parent of that and so on. -/
def HasAncestor (events : List LlmEvent) : ℕ → ℕ → Prop :=
  Relation.TransGen fun i p => parentOf events i = some p

/-- What leads down to an event is the event or above it. -/
theorem reflTransGen_child_iff {a i : ℕ} :
    Relation.ReflTransGen (Child (childrenOf events)) a i ↔ a = i ∨ HasAncestor events i a := by
  have hstep : ∀ {p k : ℕ}, Child (childrenOf events) p k ↔ parentOf events k = some p :=
    mem_childrenOf
  constructor
  · intro h
    induction h with
    | refl => exact .inl rfl
    | tail _ hlast ih =>
      right
      rcases ih with rfl | habove
      · exact .single (hstep.1 hlast)
      · exact .head (hstep.1 hlast) habove
  · rintro (rfl | habove)
    · exact .refl
    · induction habove with
      | single h => exact .single (hstep.2 h)
      | tail _ h ih => exact .head (hstep.2 h) ih

theorem HasAncestor.parentOf_ne_none {i j : ℕ} (h : HasAncestor events i j) : parentOf events i ≠ none := by
  rcases Relation.TransGen.head'_iff.1 h with ⟨p, hp, -⟩
  rw [hp]
  exact Option.some_ne_none p

end Links

/-! ## Spans as labels -/

section Label

mutual

/-- The span of a node. -/
def label (events : List LlmEvent) (eventAt : ℕ → LlmEvent) (traceStart : Time) :
    Rose ℕ → TraceSpan
  | .node i cs =>
    .node (eventAt i) (max (((eventAt i).ts - traceStart).tdiv Time.millisecond) 0)
      (eventAt i).latencyMs (isDuplicate events i) (labelAll events eventAt traceStart cs)

/-- The spans of some nodes. -/
def labelAll (events : List LlmEvent) (eventAt : ℕ → LlmEvent) (traceStart : Time) :
    List (Rose ℕ) → List TraceSpan
  | [] => []
  | t :: ts => label events eventAt traceStart t :: labelAll events eventAt traceStart ts

end

mutual

/-- The events of a span and of everything under it. -/
def TraceSpan.eventsUnder : TraceSpan → List LlmEvent
  | .node ev _ _ _ cs => ev :: TraceSpan.eventsOf cs

/-- The events of some spans and of everything under them. -/
def TraceSpan.eventsOf : List TraceSpan → List LlmEvent
  | [] => []
  | s :: ss => TraceSpan.eventsUnder s ++ TraceSpan.eventsOf ss

end

variable {events : List LlmEvent} {eventAt : ℕ → LlmEvent} {traceStart : Time}

theorem labelAll_append (ts us : List (Rose ℕ)) :
    labelAll events eventAt traceStart (ts ++ us) =
      labelAll events eventAt traceStart ts ++ labelAll events eventAt traceStart us := by
  induction ts with
  | nil => simp [labelAll]
  | cons t ts ih => simp [labelAll, ih]

theorem labelAll_toList (t? : Option (Rose ℕ)) :
    labelAll events eventAt traceStart t?.toList =
      (t?.map (label events eventAt traceStart)).toList := by
  cases t? with
  | none => simp [labelAll]
  | some t => simp [labelAll]

mutual

theorem eventsUnder_label (t : Rose ℕ) :
    (label events eventAt traceStart t).eventsUnder =
      ((families t).map Prod.fst).map eventAt := by
  cases t with
  | node i cs =>
    rw [label, TraceSpan.eventsUnder, families, eventsOf_labelAll cs, List.map_cons, List.map_cons,
      names]

/-- The events of the spans are the events at the nodes. -/
theorem eventsOf_labelAll (ts : List (Rose ℕ)) :
    TraceSpan.eventsOf (labelAll events eventAt traceStart ts) = (names ts).map eventAt := by
  cases ts with
  | nil => simp [labelAll, TraceSpan.eventsOf, names, familiesAll]
  | cons t ts =>
    have hts := eventsOf_labelAll ts
    unfold names at hts ⊢
    rw [labelAll, TraceSpan.eventsOf, familiesAll, List.map_append, List.map_append,
      eventsUnder_label t, hts]

end

/-- Taking one subtree after the other is growing one tree after the other. -/
theorem foldl_subtrees (sub : ℕ → List ℕ → Option TraceSpan × List ℕ)
    {tree : ℕ → List ℕ → Option (Rose ℕ) × List ℕ} (is : List ℕ)
    (h : ∀ i ∈ is, ∀ taken, sub i taken =
      ((tree i taken).1.map (label events eventAt traceStart), (tree i taken).2))
    (acc : List TraceSpan × List ℕ) :
    is.foldl (fun acc i => (acc.1 ++ (sub i acc.2).1.toList, (sub i acc.2).2)) acc =
      (acc.1 ++ labelAll events eventAt traceStart (growAll tree is acc.2).1,
        (growAll tree is acc.2).2) := by
  induction is generalizing acc with
  | nil => simp [growAll, labelAll]
  | cons i is ih =>
    have hi := h i List.mem_cons_self acc.2
    rw [List.foldl_cons, ih fun j hj => h j (List.mem_cons_of_mem i hj), hi]
    rw [growAll, labelAll_append, labelAll_toList, List.append_assoc]

/-- **A subtree is a grown tree, labelled.** -/
theorem takeSubtree_eq (hat : ∀ i ev, events[i]? = some ev → eventAt i = ev) (fuel : ℕ) :
    ∀ i < events.length, ∀ taken, takeSubtree events traceStart fuel i taken =
      ((grow (childrenOf events) fuel i taken).1.map (label events eventAt traceStart),
        (grow (childrenOf events) fuel i taken).2) := by
  induction fuel with
  | zero =>
    intro i _ taken
    simp [takeSubtree, grow]
  | succ fuel ih =>
    intro i hi taken
    by_cases htaken : i ∈ taken
    · rw [grow_of_mem _ htaken, takeSubtree, if_pos htaken, Option.map_none]
    · have hev := List.getElem?_eq_getElem hi
      have hkids := foldl_subtrees (takeSubtree events traceStart fuel)
        (childrenOf events i) (fun c hc => ih c (lt_of_parentOf (mem_childrenOf.1 hc)).1)
        ([], i :: taken)
      rw [List.nil_append] at hkids
      rw [grow_of_notMem fuel htaken, takeSubtree, if_neg htaken, hev]
      simp only [hkids, Option.map_some, label, hat i _ hev]

/-- What is offered: the events without a parent, then every event. -/
def offered (events : List LlmEvent) : List ℕ := rootsOf events ++ List.range events.length

/-- The nodes of the span forest. -/
def spanNodes (events : List LlmEvent) : List (Rose ℕ) :=
  (growAll (grow (childrenOf events) events.length) (offered events) []).1

/-- **The spans are the nodes of a depth-first forest, labelled.** -/
theorem buildForest_eq (hat : ∀ i ev, events[i]? = some ev → eventAt i = ev) :
    buildForest events traceStart = labelAll events eventAt traceStart (spanNodes events) := by
  have hplant : ∀ (is : List ℕ), (∀ i ∈ is, i < events.length) → ∀ acc : List TraceSpan × List ℕ,
      is.foldl (plant events traceStart) acc =
        (acc.1 ++ labelAll events eventAt traceStart
            (growAll (grow (childrenOf events) events.length) is acc.2).1,
          (growAll (grow (childrenOf events) events.length) is acc.2).2) := by
    intro is his acc
    exact foldl_subtrees (takeSubtree events traceStart events.length) is
      (fun i hi => takeSubtree_eq hat events.length i (his i hi)) acc
  unfold buildForest spanNodes offered
  dsimp only
  rw [growAll_append, labelAll_append, hplant (rootsOf events) fun i hi => (mem_rootsOf.1 hi).1,
    hplant (List.range events.length) fun i hi => List.mem_range.1 hi, List.nil_append]

end Label

/-! ## Places -/

section Places

variable {events : List LlmEvent}

theorem childrenOf_subset (a : ℕ) : childrenOf events a ⊆ List.range events.length := by
  intro i hi
  exact List.mem_range.2 (lt_of_parentOf (mem_childrenOf.1 hi)).1

theorem offered_subset : offered events ⊆ List.range events.length := by
  refine List.append_subset.2 ⟨?_, List.Subset.refl _⟩
  intro i hi
  exact List.mem_range.2 (mem_rootsOf.1 hi).1

theorem spanNodes_grown : ∃ taken,
    Grown (childrenOf events) (List.range events.length) (offered events) [] (spanNodes events)
      taken :=
  ⟨_, growAll_spec (fun a _ => childrenOf_subset a) events.length (offered events) []
    List.nodup_nil (List.nil_subset _) offered_subset (by simp)⟩

/-- Every event is one node. -/
theorem names_spanNodes : (names (spanNodes events)).Perm (List.range events.length) := by
  rcases @spanNodes_grown events with ⟨taken, h⟩
  have hnames := h.taken
  rw [List.append_nil] at hnames
  refine hnames.symm.trans ((List.perm_ext_iff_of_nodup h.nodup List.nodup_range).2 ?_)
  intro i
  refine ⟨fun hi => h.within hi, fun hi => h.offered ?_⟩
  exact List.mem_append_right _ hi

/-- Of the events offered, one with a parent is reached from none before it only where everything
above it has a parent and comes later. -/
theorem above_of_not_reached {i : ℕ} {before after : List ℕ}
    (heq : rootsOf events ++ List.range events.length = before ++ i :: after)
    (hparent : parentOf events i ≠ none)
    (hbefore : ∀ a ∈ before, ¬ Relation.ReflTransGen
      (fun a b => b ∈ childrenOf events a) a i) :
    ∀ j, HasAncestor events i j → parentOf events j ≠ none ∧ i ≤ j := by
  have hlast : ∀ {j}, HasAncestor events i j → j < events.length := by
    intro j habove
    rcases Relation.TransGen.tail'_iff.1 habove with ⟨k, -, hk⟩
    exact (lt_of_parentOf hk).2
  have hnotin : i ∉ rootsOf events := fun h => hparent (mem_rootsOf.1 h).2
  rcases List.append_eq_append_iff.1 heq with ⟨c, rfl, hrange⟩ | ⟨c, hroots, hrest⟩
  · -- it is offered among the events in order: every root, and every earlier event, before it
    intro j habove
    have hfree : j ∉ rootsOf events ++ c := by
      intro hj
      exact hbefore j hj (reflTransGen_child_iff.2 (.inr habove))
    constructor
    · intro hnone
      exact hfree (List.mem_append_left _ (mem_rootsOf.2 ⟨hlast habove, hnone⟩))
    · by_contra hle
      have hin : j ∈ c ++ i :: after := by
        rw [← hrange]
        exact List.mem_range.2 (hlast habove)
      have hsorted : (c ++ i :: after).Pairwise (· < ·) := by
        rw [← hrange]
        exact List.pairwise_lt_range
      rw [List.pairwise_append, List.pairwise_cons] at hsorted
      rcases List.mem_append.1 hin with hc | hrest
      · exact hfree (List.mem_append_right _ hc)
      · rcases List.mem_cons.1 hrest with rfl | hafter
        · exact hle le_rfl
        · exact hle (hsorted.2.1.1 j hafter).le
  · cases c with
    | nil =>
      -- it is the first event, offered right behind the roots
      rw [List.append_nil] at hroots
      rw [List.nil_append] at hrest
      intro j habove
      have hj := hlast habove
      constructor
      · intro hnone
        refine hbefore j ?_ (reflTransGen_child_iff.2 (.inr habove))
        rw [← hroots]
        exact mem_rootsOf.2 ⟨hj, hnone⟩
      · have hzero : i = 0 := by
          have hhead := congrArg List.head? hrest
          rw [List.head?_cons, List.head?_range, if_neg (by omega)] at hhead
          exact Option.some.inj hhead
        omega
    | cons k c =>
      rw [List.cons_append, List.cons.injEq] at hrest
      rw [hroots, ← hrest.1] at hnotin
      exact absurd (List.mem_append_right _ List.mem_cons_self) hnotin

/-- An event without a parent is reached from no event offered before it. -/
theorem not_reached_of_root {i : ℕ} (hlt : i < events.length) (hparent : parentOf events i = none) :
    ∃ before after, rootsOf events ++ List.range events.length = before ++ i :: after ∧
      ∀ a ∈ before, ¬ Relation.ReflTransGen (fun a b => b ∈ childrenOf events a) a i := by
  rcases List.append_of_mem (mem_rootsOf.2 ⟨hlt, hparent⟩) with ⟨before, after, heq⟩
  refine ⟨before, after ++ List.range events.length, by simp [heq], ?_⟩
  intro a ha hreach
  rcases reflTransGen_child_iff.1 hreach with rfl | habove
  · have hnodup : (rootsOf events).Nodup := List.nodup_range.filter _
    rw [heq, List.nodup_middle, List.nodup_cons] at hnodup
    exact hnodup.1 (List.mem_append_left _ ha)
  · exact habove.parentOf_ne_none hparent

/-- Nor is one with a parent, where everything above it has a parent and comes later. -/
theorem not_reached_of_first {i : ℕ} (hlt : i < events.length) (hparent : parentOf events i ≠ none)
    (hfirst : ∀ j, HasAncestor events i j → parentOf events j ≠ none ∧ i ≤ j) :
    ∃ before after, rootsOf events ++ List.range events.length = before ++ i :: after ∧
      ∀ a ∈ before, ¬ Relation.ReflTransGen (fun a b => b ∈ childrenOf events a) a i := by
  obtain ⟨d, hd⟩ : ∃ d, events.length = i + (d + 1) := ⟨events.length - i - 1, by omega⟩
  refine ⟨rootsOf events ++ List.range i, (List.range d).map (fun k => i + (k + 1)), ?_, ?_⟩
  · rw [hd, List.range_add, List.range_succ_eq_map, List.map_cons, List.map_map,
      List.append_assoc]
    congr 3
  · intro a ha hreach
    rcases reflTransGen_child_iff.1 hreach with rfl | habove
    · rcases List.mem_append.1 ha with hroot | hlow
      · exact hparent (mem_rootsOf.1 hroot).2
      · exact absurd (List.mem_range.1 hlow) (lt_irrefl _)
    · rcases hfirst a habove with ⟨hsome, hle⟩
      rcases List.mem_append.1 ha with hroot | hlow
      · exact hsome (mem_rootsOf.1 hroot).2
      · have := List.mem_range.1 hlow
        omega

/-- **Which events become roots**: those without a parent, and those that come before everything
above them where nothing above them is without a parent. -/
theorem isRoot_iff {i : ℕ} : i ∈ (spanNodes events).map root ↔ i < events.length ∧
    (parentOf events i = none ∨
      ∀ j, HasAncestor events i j → parentOf events j ≠ none ∧ i ≤ j) := by
  unfold spanNodes
  rw [mem_roots_iff (fun a _ => childrenOf_subset a) (by simp) offered_subset]
  unfold offered
  constructor
  · rintro ⟨before, after, heq, hbefore⟩
    have hi : i ∈ rootsOf events ++ List.range events.length := by
      rw [heq]
      exact List.mem_append_right _ List.mem_cons_self
    refine ⟨List.mem_range.1 (offered_subset hi), ?_⟩
    by_cases hparent : parentOf events i = none
    · exact .inl hparent
    · exact .inr (above_of_not_reached heq hparent hbefore)
  · rintro ⟨hlt, hplace⟩
    by_cases hparent : parentOf events i = none
    · exact not_reached_of_root hlt hparent
    · exact not_reached_of_first hlt hparent (hplace.resolve_left hparent)

/-- Which events hang under another: those that something without a parent or something earlier is
above. -/
theorem isChild_iff {i p : ℕ} :
    (∃ kids, (p, kids) ∈ familiesAll (spanNodes events) ∧ i ∈ kids) ↔
      parentOf events i = some p ∧
        ∃ j, HasAncestor events i j ∧ (parentOf events j = none ∨ j < i) := by
  rcases @spanNodes_grown events with ⟨taken, h⟩
  have hperm := familiesAll_perm (spanNodes events)
  have hnodup : (names (spanNodes events)).Nodup := names_spanNodes.nodup_iff.2 List.nodup_range
  have hlink : ∀ {q kids}, (q, kids) ∈ familiesAll (spanNodes events) → i ∈ kids →
      parentOf events i = some q := by
    intro q kids hf hi
    exact mem_childrenOf.1 ((h.families _ hf).subset hi)
  constructor
  · rintro ⟨kids, hf, hi⟩
    have hparent := hlink hf hi
    refine ⟨hparent, ?_⟩
    have hroot : i ∉ (spanNodes events).map root := by
      intro hroot
      have hsplit := List.nodup_append.1 (hperm.nodup_iff.1 hnodup)
      exact hsplit.2.2 i hroot i (List.mem_flatMap.2 ⟨_, hf, hi⟩) rfl
    -- a child is no root, so something above it came first or has no parent
    rw [isRoot_iff] at hroot
    by_contra hnone
    refine hroot ⟨(lt_of_parentOf hparent).1, .inr ?_⟩
    intro j habove
    constructor
    · intro hj
      exact hnone ⟨j, habove, .inl hj⟩
    · by_contra hle
      exact hnone ⟨j, habove, .inr (not_le.1 hle)⟩
  · rintro ⟨hparent, j, habove, hj⟩
    have hroot : i ∉ (spanNodes events).map root := by
      rw [isRoot_iff]
      rintro ⟨-, hnone | hfirst⟩
      · rw [hparent] at hnone
        exact Option.some_ne_none p hnone
      · rcases hfirst j habove with ⟨hsome, hle⟩
        rcases hj with hj | hj
        · exact hsome hj
        · omega
    have hin : i ∈ names (spanNodes events) := by
      rw [names_spanNodes.mem_iff]
      exact List.mem_range.2 (lt_of_parentOf hparent).1
    -- every event is a root or a child of one family
    rcases List.mem_append.1 (hperm.mem_iff.1 hin) with hr | hc
    · exact absurd hr hroot
    · rcases List.mem_flatMap.1 hc with ⟨⟨q, kids⟩, hf, hi⟩
      have hq := hlink hf hi
      rw [hparent, Option.some.injEq] at hq
      subst hq
      exact ⟨kids, hf, hi⟩

/-- Children are in the order of the events. -/
theorem pairwise_kids {f : ℕ × List ℕ} (hf : f ∈ familiesAll (spanNodes events)) :
    f.2.Pairwise (· < ·) := by
  rcases @spanNodes_grown events with ⟨taken, h⟩
  exact (List.pairwise_lt_range.filter _).sublist (h.families f hf)

end Places

/-! ## The forest of a trace -/

/-- The nodes `forest` are the span forest of events in order. -/
structure IsSpanForest (events : List LlmEvent) (traceStart : Time) (forest : List (Rose ℕ)) :
    Prop where
  /-- every event is one node -/
  once : (names forest).Perm (List.range events.length)
  /-- a span shows the event at its node, and whether an earlier one claimed its span id -/
  labelled : ∀ eventAt, (∀ i ev, events[i]? = some ev → eventAt i = ev) →
    buildForest events traceStart = labelAll events eventAt traceStart forest
  shown : (TraceSpan.eventsOf (buildForest events traceStart)).Perm events
  duplicate : ∀ i, isDuplicate events i = true ↔ ∃ j < i, ∃ sid,
    (events[i]?.bind LlmEvent.spanId) = some sid ∧ (events[j]?.bind LlmEvent.spanId) = some sid
  parent : ∀ i p, parentOf events i = some p ↔ p ≠ i ∧ ∃ sid,
    (events[i]?.bind LlmEvent.parentSpanId) = some sid ∧
      (events[p]?.bind LlmEvent.spanId) = some sid ∧
        ∀ q < p, (events[q]?.bind LlmEvent.spanId) ≠ some sid
  root_iff : ∀ i, i ∈ forest.map root ↔ i < events.length ∧
    (parentOf events i = none ∨ ∀ j, HasAncestor events i j → parentOf events j ≠ none ∧ i ≤ j)
  child_iff : ∀ i p, (∃ kids, (p, kids) ∈ familiesAll forest ∧ i ∈ kids) ↔
    parentOf events i = some p ∧ ∃ j, HasAncestor events i j ∧ (parentOf events j = none ∨ j < i)
  /-- children are in the order of the events -/
  ordered : ∀ f ∈ familiesAll forest, f.2.Pairwise (· < ·)

theorem eventsOf_buildForest {events : List LlmEvent} {traceStart : Time} :
    (TraceSpan.eventsOf (buildForest events traceStart)).Perm events := by
  cases hevents : events with
  | nil => simp [buildForest, rootsOf, TraceSpan.eventsOf]
  | cons first rest =>
    rw [← hevents]
    have hat : ∀ (i : ℕ) ev, events[i]? = some ev → events[i]?.getD first = ev := by
      intro i ev hev
      rw [hev, Option.getD_some]
    rw [@buildForest_eq events (fun i => events[i]?.getD first) traceStart hat, eventsOf_labelAll]
    refine (names_spanNodes.map _).trans ?_
    have hall : (List.range events.length).map (fun i => events[i]?.getD first) = events := by
      refine List.ext_getElem (by simp) ?_
      intro i hi hi'
      simp [hi']
    rw [hall]

theorem buildForest_isSpanForest (events : List LlmEvent) (traceStart : Time) :
    IsSpanForest events traceStart (spanNodes events) := by
  constructor
  · exact names_spanNodes
  · intro eventAt hat
    exact buildForest_eq hat
  · exact eventsOf_buildForest
  · intro i
    exact isDuplicate_iff
  · intro i p
    rw [parentOf_eq_some_iff]
    simp only [spanOwner_eq_some_iff]
  · intro i
    exact isRoot_iff
  · intro i p
    exact isChild_iff
  · intro f hf
    exact pairwise_kids hf

theorem pairwise_oldestFirst (events : List LlmEvent) :
    (oldestFirst events).Pairwise fun a b => a.ts ≤ b.ts := by
  unfold oldestFirst
  refine (List.pairwise_mergeSort ?_ ?_ events).imp ?_
  · intro a b c hab hbc
    rw [decide_eq_true_eq] at hab hbc ⊢
    exact hab.trans hbc
  · intro a b
    rw [Bool.or_eq_true, decide_eq_true_eq, decide_eq_true_eq]
    exact le_total a.ts b.ts
  · intro a b hab
    exact of_decide_eq_true hab

/-- **The span forest of a trace holds every event once.**  An event hangs under the first owner of
the span id it names, unless it comes before everything above it and that has a parent throughout:
then, and where it has no parent, it is a root. -/
theorem trace_spanForest (unsorted : List LlmEvent) :
    (oldestFirst unsorted).Perm unsorted ∧
    (oldestFirst unsorted).Pairwise (fun a b => a.ts ≤ b.ts) ∧
    (∀ traceStart, IsSpanForest (oldestFirst unsorted) traceStart
      (spanNodes (oldestFirst unsorted))) ∧
    ∀ checks spansTotal tr, Trace.fromEventsBounded checks unsorted spansTotal = .ok (some tr) →
      tr.spans = buildForest (oldestFirst unsorted) tr.startedAt := by
  refine ⟨oldestFirst_perm unsorted, pairwise_oldestFirst unsorted,
    fun traceStart => buildForest_isSpanForest (oldestFirst unsorted) traceStart, ?_⟩
  intro checks spansTotal tr htr
  rcases fromEventsBounded_eq_ok_iff.1 htr with ⟨first, shape, totals, -, -, -, rfl⟩
  simp only [Trace.ofParts]

/-- A call with a span id under another. -/
def linkedCall (sid parent : String) : LlmEvent where
  id := sid
  projectId := "p"
  spanId := some sid
  parentSpanId := some parent
  ts := 0
  receivedAt := 0
  provider := .new "openai"
  model := "m"
  usage := { input := 0, output := 0 }

/-- Three calls in order: the first names the second as its parent, and the other two name each
other. -/
def belowCycle : List LlmEvent := [linkedCall "a" "b", linkedCall "b" "c", linkedCall "c" "b"]

/-- Nothing is under the first call, so hanging it under its parent closes no cycle, yet it is a
root. -/
theorem below_cycle_is_root : ¬ ∀ (events : List LlmEvent) (i p : ℕ),
    events.Pairwise (fun a b => a.ts ≤ b.ts) → parentOf events i = some p →
    ¬ HasAncestor events p i → i ∉ (spanNodes events).map root := by
  intro h
  have hparent : ∀ j, parentOf belowCycle j ≠ some 0 := by
    intro j hj
    rcases lt_of_parentOf hj with ⟨hlt, -⟩
    have hall : ∀ k ∈ List.range 3, parentOf belowCycle k ≠ some 0 := by decide
    exact hall j (List.mem_range.2 hlt) hj
  refine h belowCycle 0 1 (by decide) (by decide) ?_ (by decide)
  intro habove
  rcases Relation.TransGen.tail'_iff.1 habove with ⟨j, -, hj⟩
  exact hparent j hj

end LightTrack
