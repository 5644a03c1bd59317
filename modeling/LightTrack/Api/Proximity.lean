import LightTrack.Api.Replay
import LightTrack.Lib.Extremum

/-! # The proximity of a batch

A batch answers with one proximity, into which that of every item is merged.  The ratio, the shed
fraction and the wait are the worst of the items'.  The binding rule of the whole batch is the
first status of the worst ratio; merging names that of the last item that has it.

* `axis_batchProximity` : each axis is the greatest of the items',
* `boundBy_batchProximity` : the rule a batch names,
* `batchProximity_iff` : it is the one to name exactly if `BindingAgrees`,
* `postBatch_proximity` : what the batch door answers.
-/

namespace LightTrack

/-- What an item of a batch tells about limits: the statuses of its admission, and the wait if it
was turned away. -/
structure ProximityItem where
  statuses : List LimitStatus
  retryAfterSecs : Option ℕ := none

namespace ProximityItem

/-- The proximity of one item. -/
def proximity (i : ProximityItem) : Proximity :=
  { Proximity.of i.statuses with retryAfterSecs := i.retryAfterSecs }

/-- The first of an item's statuses with the worst ratio. -/
def worst (i : ProximityItem) : Option LimitStatus :=
  i.statuses.argmax LimitStatus.ratio

end ProximityItem

/-- The items of a batch, merged one by one. -/
def batchProximity (items : List ProximityItem) : Proximity :=
  items.foldl (fun p i => p.merge i.proximity) {}

/-- The statuses of a batch, in order. -/
def allStatuses (items : List ProximityItem) : List LimitStatus :=
  items.flatMap ProximityItem.statuses

/-- The worst status of each item. -/
def worsts (items : List ProximityItem) : List LimitStatus :=
  items.filterMap ProximityItem.worst

/-- A proximity is the worst of the items: on each axis the greatest of theirs, bound by the first
status that attains the worst ratio, as if all statuses were those of one item. -/
structure WorstOfItems (items : List ProximityItem) (p : Proximity) : Prop where
  usageRatio : p.usageRatio = (items.filterMap fun i => i.proximity.usageRatio).max?
  shedFraction : p.shedFraction = (items.filterMap fun i => i.proximity.shedFraction).max?
  retryAfterSecs : p.retryAfterSecs = (items.filterMap fun i => i.proximity.retryAfterSecs).max?
  bindingRule : p.bindingRule =
    ((allStatuses items).argmax LimitStatus.ratio).map LimitStatus.ruleId
  bindingScope : p.bindingScope =
    ((allStatuses items).argmax LimitStatus.ratio).bind LimitStatus.scope
  concat : p = { Proximity.of (allStatuses items) with retryAfterSecs := p.retryAfterSecs }

/-- Of the worst statuses of the items, the first and the last with the worst ratio name the same
rule. -/
def BindingAgrees (items : List ProximityItem) : Prop :=
  ((worsts items).argmax LimitStatus.ratio).map (fun s => (s.ruleId, s.scope)) =
    ((worsts items).reverse.argmax LimitStatus.ratio).map fun s => (s.ruleId, s.scope)

instance (items : List ProximityItem) : Decidable (BindingAgrees items) :=
  inferInstanceAs (Decidable (_ = _))

/-! ## The axes -/

/-- Something proximities carry of which merging keeps the greater. -/
structure Axis (β : Type) [LinearOrder β] where
  get : Proximity → Option β
  get_merge : ∀ p q, get (p.merge q) = [get p, get q].reduceOption.max?
  get_empty : get {} = none

def usageAxis : Axis (WithTop ℚ) := ⟨Proximity.usageRatio, fun _ _ => rfl, rfl⟩

def shedAxis : Axis ℚ := ⟨Proximity.shedFraction, fun _ _ => rfl, rfl⟩

def retryAxis : Axis ℕ := ⟨Proximity.retryAfterSecs, fun _ _ => rfl, rfl⟩

theorem batchProximity_concat (items : List ProximityItem) (i : ProximityItem) :
    batchProximity (items ++ [i]) = (batchProximity items).merge i.proximity :=
  List.foldl_concat ..

/-- **Each axis of a batch is the greatest of its items'.** -/
theorem axis_batchProximity {β : Type} [LinearOrder β] (axis : Axis β)
    (items : List ProximityItem) :
    axis.get (batchProximity items) = (items.filterMap fun i => axis.get i.proximity).max? := by
  induction items using List.reverseRecOn with
  | nil => exact axis.get_empty
  | append_singleton items i ih =>
    have hone : ([i].filterMap fun i => axis.get i.proximity).max? = axis.get i.proximity := by
      rw [List.filterMap_cons]
      cases axis.get i.proximity <;> rfl
    rw [batchProximity_concat, axis.get_merge, ih, List.filterMap_append,
      Extremum.max?_append_eq, hone]

/-! ## The binding rule -/

/-- A proximity is bound by a status: it has its ratio, its scope and its rule. -/
structure Proximity.BoundBy (p : Proximity) (binding : Option LimitStatus) : Prop where
  usageRatio : p.usageRatio = binding.map LimitStatus.ratio
  scope : p.bindingScope = binding.bind LimitStatus.scope
  rule : p.bindingRule = binding.map LimitStatus.ruleId

/-- The worse of the worst status so far and the next one. -/
def worse (best : Option LimitStatus) (s : LimitStatus) : Option LimitStatus :=
  match best with
  | some b => if s.ratio ≤ b.ratio then some b else some s
  | none => some s

theorem foldl_worse (statuses : List LimitStatus) :
    statuses.foldl worse none = statuses.argmax LimitStatus.ratio := by
  induction statuses using List.reverseRecOn with
  | nil => rfl
  | append_singleton statuses s ih =>
    rw [List.foldl_concat, ih, List.argmax_concat]
    cases statuses.argmax LimitStatus.ratio with
    | none => rfl
    | some b =>
      unfold worse
      by_cases hle : s.ratio ≤ b.ratio
      · simp only [if_pos hle, if_neg (not_lt.2 hle)]
      · simp only [if_neg hle, if_pos (not_le.1 hle)]

/-- The statuses of one item are bound by the first with the worst ratio. -/
theorem Proximity.boundBy_of (statuses : List LimitStatus) :
    (Proximity.of statuses).BoundBy (statuses.argmax LimitStatus.ratio) := by
  rw [← foldl_worse]
  refine ⟨?_, rfl, rfl⟩
  rw [foldl_worse]
  exact Extremum.max?_map_eq_argmax _ _

theorem ProximityItem.boundBy_proximity (i : ProximityItem) : i.proximity.BoundBy i.worst := by
  have h := Proximity.boundBy_of i.statuses
  exact ⟨h.usageRatio, h.scope, h.rule⟩

/-- Merging names the rule of the later of two with the same ratio. -/
theorem Proximity.BoundBy.merge {p q : Proximity} {b c : Option LimitStatus} (hp : p.BoundBy b)
    (hq : q.BoundBy c) : (p.merge q).BoundBy ([c, b].reduceOption.argmax LimitStatus.ratio) := by
  rcases p with ⟨ratio, shed, retry, scope, rule⟩
  rcases q with ⟨ratio', shed', retry', scope', rule'⟩
  rcases hp with ⟨hratio, hscope, hrule⟩
  rcases hq with ⟨hratio', hscope', hrule'⟩
  simp only at hratio hscope hrule hratio' hscope' hrule'
  subst hratio hscope hrule hratio' hscope' hrule'
  cases c with
  | none => cases b <;> exact ⟨rfl, rfl, rfl⟩
  | some c =>
    cases b with
    | none =>
      have hmax : [none, some c.ratio].reduceOption.max? = some c.ratio := rfl
      constructor
      · rfl
      · simp only [Proximity.merge, Option.map_none, Option.map_some, hmax, Option.isSome_some,
          decide_true, Bool.and_self, if_true]
        rfl
      · simp only [Proximity.merge, Option.map_none, Option.map_some, hmax, Option.isSome_some,
          decide_true, Bool.and_self, if_true]
        rfl
    | some b =>
      -- the later of two with one ratio stays: `argmax` prefers the front of the list
      have hpair : [some c, some b].reduceOption.argmax LimitStatus.ratio =
          if c.ratio < b.ratio then some b else some c := List.argmax_cons _ c [b]
      have hmax : [some b.ratio, some c.ratio].reduceOption.max? = some (max b.ratio c.ratio) := rfl
      rw [hpair]
      by_cases hlt : c.ratio < b.ratio
      · have hne : ¬ c.ratio = max b.ratio c.ratio := by
          rw [max_eq_left hlt.le]
          exact hlt.ne
        rw [if_pos hlt]
        constructor
        · exact congrArg some (max_eq_left hlt.le)
        · simp only [Proximity.merge, Option.map_some, hmax, Option.some.injEq, hne]
          rfl
        · simp only [Proximity.merge, Option.map_some, hmax, Option.some.injEq, hne]
          rfl
      · have heq : c.ratio = max b.ratio c.ratio := (max_eq_right (not_lt.1 hlt)).symm
        rw [if_neg hlt]
        constructor
        · exact congrArg some heq.symm
        · simp only [Proximity.merge, Option.map_some, hmax, ← heq]
          rfl
        · simp only [Proximity.merge, Option.map_some, hmax, ← heq]
          rfl

/-- **The rule a batch names**: of the worst statuses of its items the last with the worst ratio. -/
theorem boundBy_batchProximity (items : List ProximityItem) :
    (batchProximity items).BoundBy ((worsts items).reverse.argmax LimitStatus.ratio) := by
  induction items using List.reverseRecOn with
  | nil => exact ⟨rfl, rfl, rfl⟩
  | append_singleton items i ih =>
    have hworsts : (worsts (items ++ [i])).reverse = i.worst.toList ++ (worsts items).reverse := by
      unfold worsts
      rw [List.filterMap_append, List.reverse_append]
      cases hworst : i.worst <;> simp [hworst]
    have hone : i.worst.toList.argmax LimitStatus.ratio = i.worst := by
      cases i.worst <;> rfl
    rw [batchProximity_concat, hworsts, Extremum.argmax_append, hone]
    exact ih.merge i.boundBy_proximity

/-- The first status of a batch with the worst ratio is the first of its items' worst. -/
theorem argmax_allStatuses (items : List ProximityItem) :
    (allStatuses items).argmax LimitStatus.ratio = (worsts items).argmax LimitStatus.ratio :=
  Extremum.argmax_flatMap _ _ _

/-! ## The worst of the items -/

/-- The ratio of a batch is that of all its statuses. -/
theorem usageRatio_allStatuses (items : List ProximityItem) :
    (batchProximity items).usageRatio = (Proximity.of (allStatuses items)).usageRatio := by
  have hratio : ∀ l : List LimitStatus,
      (l.reverse.argmax LimitStatus.ratio).map LimitStatus.ratio =
        (l.argmax LimitStatus.ratio).map LimitStatus.ratio := by
    intro l
    rw [← Extremum.max?_map_eq_argmax, ← Extremum.max?_map_eq_argmax]
    exact Extremum.max?_perm (l.reverse_perm.map _)
  rw [(boundBy_batchProximity items).usageRatio, (Proximity.boundBy_of _).usageRatio, hratio,
    argmax_allStatuses]

/-- The shed fraction of a batch is that of all its statuses. -/
theorem shedFraction_allStatuses (items : List ProximityItem) :
    (batchProximity items).shedFraction = (Proximity.of (allStatuses items)).shedFraction := by
  have hup : ∀ a b : ℚ, a ≤ b → decide (0 < a) = true → decide (0 < b) = true := by
    intro a b hab ha
    exact decide_eq_true ((of_decide_eq_true ha).trans_le hab)
  have hof : ∀ statuses : List LimitStatus, (Proximity.of statuses).shedFraction =
      ((statuses.map LimitStatus.shedFraction).filter fun f => decide (0 < f)).max? :=
    fun statuses => (Extremum.max?_filter hup _).symm
  have hflat : ((allStatuses items).map LimitStatus.shedFraction).filter (fun f => decide (0 < f)) =
      items.flatMap fun i => (i.statuses.map LimitStatus.shedFraction).filter
        fun f => decide (0 < f) := by
    unfold allStatuses
    rw [List.map_flatMap, List.filter_flatMap]
  have hitems : (fun i : ProximityItem => i.proximity.shedFraction) = fun i =>
      ((i.statuses.map LimitStatus.shedFraction).filter fun f => decide (0 < f)).max? :=
    funext fun i => hof i.statuses
  rw [hof, hflat, Extremum.max?_flatMap, ← hitems]
  exact axis_batchProximity shedAxis items

theorem Proximity.eq_of_fields {p q : Proximity} (hratio : p.usageRatio = q.usageRatio)
    (hshed : p.shedFraction = q.shedFraction) (hscope : p.bindingScope = q.bindingScope)
    (hrule : p.bindingRule = q.bindingRule) : p = { q with retryAfterSecs := p.retryAfterSecs } := by
  rcases p with ⟨ratio, shed, retry, scope, rule⟩
  rw [← hratio, ← hshed, ← hscope, ← hrule]

/-- **The proximity of a batch is the worst of its items exactly if** the rule that the last of them
puts forward is the one the first does. -/
theorem batchProximity_iff (items : List ProximityItem) :
    WorstOfItems items (batchProximity items) ↔ BindingAgrees items := by
  have hbound := boundBy_batchProximity items
  unfold BindingAgrees
  constructor
  · intro h
    have hrule := hbound.rule.symm.trans h.bindingRule
    have hscope := hbound.scope.symm.trans h.bindingScope
    rw [argmax_allStatuses] at hrule hscope
    cases hfirst : (worsts items).argmax LimitStatus.ratio with
    | none =>
      -- no item has a status
      rw [hfirst, Option.map_none, Option.map_eq_none_iff] at hrule
      rw [hrule]
    | some s =>
      rw [hfirst, Option.map_some, Option.map_eq_some_iff] at hrule
      rcases hrule with ⟨s', hlast, hrule⟩
      rw [hfirst, hlast] at hscope
      rw [hlast, Option.map_some, Option.map_some, hrule, show s.scope = s'.scope from hscope.symm]
  · intro h
    have hrule : (batchProximity items).bindingRule =
        ((allStatuses items).argmax LimitStatus.ratio).map LimitStatus.ruleId := by
      have hfst := congrArg (Option.map Prod.fst) h
      rw [Option.map_map, Option.map_map] at hfst
      rw [hbound.rule, argmax_allStatuses]
      exact hfst.symm
    have hscope : (batchProximity items).bindingScope =
        ((allStatuses items).argmax LimitStatus.ratio).bind LimitStatus.scope := by
      have hsnd := congrArg (fun o => o.bind Prod.snd) h
      simp only [Option.bind_map] at hsnd
      rw [hbound.scope, argmax_allStatuses]
      exact hsnd.symm
    -- the figures are maxima in any case; only what binds can differ
    refine ⟨axis_batchProximity usageAxis items, axis_batchProximity shedAxis items,
      axis_batchProximity retryAxis items, hrule, hscope, ?_⟩
    have hof := Proximity.boundBy_of (allStatuses items)
    exact Proximity.eq_of_fields (usageRatio_allStatuses items) (shedFraction_allStatuses items)
      (hscope.trans hof.scope.symm) (hrule.trans hof.rule.symm)

/-- A status at nine tenths of its cap. -/
def nearCap (ruleId : String) (scope : Option LimitScope) : LimitStatus where
  ruleId := ruleId
  projectId := "p"
  metric := .calls
  window := .day
  action := .alert
  current := 9
  threshold := ((10 : ℚ) : WithTop ℚ)
  breached := false
  ratio := ((9 / 10 : ℚ) : WithTop ℚ)
  warnAt := none
  warning := false
  scope := scope
  basis := .fixed
  costEvidence := none
  shedFraction := 0
  shedding := false

/-- Two items, each near a cap of its own. -/
def tiedItems : List ProximityItem :=
  [⟨[nearCap "r-a" none], none⟩, ⟨[nearCap "r-b" (some (.model "gpt-4o"))], none⟩]

/-- **A tie is decided for the last item**, where all statuses together name the first rule. -/
theorem tiedItems_not_worst :
    ¬ ∀ items : List ProximityItem, WorstOfItems items (batchProximity items) := by
  intro h
  have hrule := (h tiedItems).bindingRule
  have hlast : (batchProximity tiedItems).bindingRule = some "r-b" := by
    decide +kernel
  have hfirst : ((allStatuses tiedItems).argmax LimitStatus.ratio).map LimitStatus.ruleId =
      some "r-a" := by
    decide +kernel
  rw [hlast, hfirst] at hrule
  exact absurd hrule (by decide)

/-! ## The batch door -/

/-- What an admission tells about limits; only an item that was turned away has to wait. -/
def admissionItem (a : Admission) : ProximityItem where
  statuses := a.statuses
  retryAfterSecs := if a.admitted then none else a.retryAfterSecs

/-- What the store's answers tell about limits. -/
def admissionItems (admissions : List (Except StoreError Admission)) : List ProximityItem :=
  admissions.filterMap fun res => res.toOption.map admissionItem

theorem Proximity.merge_empty (p : Proximity) : p.merge {} = p := by
  have hnone : ∀ {β : Type} [LinearOrder β] (o : Option β), [o, none].reduceOption.max? = o := by
    intro β _ o
    cases o <;> rfl
  rcases p with ⟨ratio, shed, retry, scope, rule⟩
  simp only [Proximity.merge, hnone, Option.isSome_none, Bool.false_and, Bool.false_eq_true,
    if_false]

theorem batchAnswer_proximity (t : EventTable) (i : ℕ) (ev : LlmEvent) (r : Readings)
    (admission : Except StoreError Admission) (l : RejectionLedger) (p : Proximity) :
    p.merge (batchAnswer t i ev r admission l).2.2 =
      (admissionItems [admission]).foldl (fun p i => p.merge i.proximity) p := by
  cases admission with
  | ok a =>
    change _ = p.merge (admissionItem a).proximity
    unfold batchAnswer admissionItem
    simp only
    by_cases hadmitted : a.admitted = true
    · rw [if_pos hadmitted, if_pos hadmitted]
      rfl
    · rw [if_neg hadmitted, if_neg hadmitted]
      rfl
  | error err =>
    change _ = p
    cases err with
    | conflict message =>
      unfold batchAnswer
      simp only
      cases replayOf t ev with
      | some stored => exact p.merge_empty
      | none => exact p.merge_empty
    | _ => exact p.merge_empty

/-- The answers of a batch merge what the admissions tell. -/
theorem batchAnswers_proximity {t : EventTable}
    (prepared : List ((ℕ × BatchEntry) × Except Rejection LlmEvent))
    (admissions : List (Except StoreError Admission)) (l : RejectionLedger) (p : Proximity)
    (hlen : admissions.length = (validItems prepared).length) :
    (batchAnswers t prepared admissions l p).2.2 =
      (admissionItems admissions).foldl (fun p i => p.merge i.proximity) p := by
  induction prepared generalizing admissions l p with
  | nil =>
    rw [List.length_eq_zero_iff.1 hlen]
    rfl
  | cons x prepared ih =>
    rcases x with ⟨⟨i, e⟩, res⟩
    cases res with
    | error r => exact ih admissions l p hlen
    | ok ev =>
      cases admissions with
      | nil => simp [validItems] at hlen
      | cons admission admissions =>
        have hrest : admissions.length = (validItems prepared).length := by
          simpa [validItems] using hlen
        have hsplit : admissionItems (admission :: admissions) =
            admissionItems [admission] ++ admissionItems admissions :=
          @List.filterMap_append _ _ [admission] admissions _
        rw [hsplit, List.foldl_append, ← batchAnswer_proximity t i ev e.readings admission l p]
        exact ih admissions _ _ hrest

/-- **The batch door answers with the proximity of the store's admissions.** -/
theorem postBatch_proximity {env : IngestEnv} {principal : Principal} {entries : List BatchEntry}
    {tx : BatchTx} {s s' : Service} {items : List BatchItem} {p : Proximity}
    (h : postBatch env principal entries tx s = (.ok (items, p), s')) :
    p = batchProximity (admissionItems (batchStore env principal entries tx s).1) := by
  rcases postBatch_cases env principal entries tx s with ⟨e, hrefused⟩ | hopen
  · rw [hrefused] at h
    cases h
  · rcases hstore : batchStore env principal entries tx s with ⟨admissions, store⟩
    rcases hanswers : batchAnswers store.events (prepareBatch env principal entries) admissions
      s.rejections {} with ⟨items', l, p'⟩
    have hlen : admissions.length = (validItems (prepareBatch env principal entries)).length := by
      have hall : (batchStore env principal entries tx s).1.length =
          (validItems (prepareBatch env principal entries)).length := length_batchStore
      rwa [hstore] at hall
    rw [postBatch_of_open hopen hstore hanswers] at h
    have hp : p' = p := congrArg Prod.snd (Except.ok.inj (congrArg Prod.fst h))
    have hmerged := batchAnswers_proximity (t := store.events) (prepareBatch env principal entries)
      admissions s.rejections {} hlen
    rw [hanswers] at hmerged
    rw [← hp]
    exact hmerged

end LightTrack
