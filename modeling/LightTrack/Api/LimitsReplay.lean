import LightTrack.Core.Backtest
import LightTrack.Postgres.Rollup

/-! # The preview of a cap

`collect` measures the window of a candidate rule at each sampled instant, by a rollup that ends
there; `replay` walks the samples through the evaluator.  A rule that is stored is measured by
`usage_since` and `usage_since_scoped`, which have no upper end.

* `timeline_previewLimit` : a replay is one step for each instant,
* `stepIsLive_iff` : when a step is the answer the stored rule would have given,
* `windowUsage_rowsBefore` : what a step measures reads the rows received before its instant.
-/

namespace LightTrack

/-! ## The measurement -/

/-- What the preview and the evaluation of a stored rule ask of a store. -/
structure UsageReads where
  rollup : List EventRow → RollupQuery → Except StoreError (List RollupRow)
  usageSince : List EventRow → String → Time → Except StoreError Usage
  usageSinceScoped : List EventRow → String → Time → LimitScope → Except StoreError Usage

/-- The SQLite store. -/
def sqliteReads : UsageReads := ⟨rollup, usageSince, usageSinceScoped⟩

/-- The Postgres store. -/
def postgresReads : UsageReads :=
  ⟨Postgres.rollup, Postgres.usageSince, Postgres.usageSinceScoped⟩

/-- One round of `sum`. -/
def addRollupRow (u : Usage) (r : RollupRow) : Usage where
  costUsd := u.costUsd + r.costUsd
  calls := u.calls + r.calls
  tokens := wrapI64 (u.tokens + asI64 r.tokens)
  unpricedCalls := u.unpricedCalls + r.unpricedCalls
  clientCostUsd := u.clientCostUsd + r.clientReportedCostUsd

/-- `sum`: rollup rows as a `Usage`. -/
def sumRollup (rows : List RollupRow) : Usage := rows.foldl addRollupRow .default

/-- The rollup of a scope whose dimension is compared exactly, or of the whole project. -/
def windowQuery (project : String) (since : Time) (until_ : Option Time)
    (filter : List (Dimension × String)) : RollupQuery where
  project := some project
  groupBy := [.project]
  since := since
  until_ := until_
  timeKey := .receivedAt
  filter := filter

/-- `window_usage`, over `[since, until)`; an end that is absent is no bound. -/
def Preview.windowUsage (reads : UsageReads) (rows : List EventRow) (project : String) (since : Time)
    (until_ : Option Time) (scope : Option LimitScope) : Except StoreError Usage :=
  match scope with
  | none => (reads.rollup rows (windowQuery project since until_ [])).map sumRollup
  | some s =>
    if s.foldsCanonicalFamily then
      (reads.rollup rows (foldQuery project since until_)).map (foldScope · s)
    else
      match Dimension.parse s.kindStr with
      | none => .error (.other "that scope dimension is not supported by this store backend")
      | some dim =>
        (reads.rollup rows (windowQuery project since until_ [(dim, s.value)])).map sumRollup

/-- One round of `collect`. -/
def sampleOf (rule : LimitRule) (t : Time) (u : Usage) : BacktestSample where
  instant := t
  current := u.metricValue rule.metric
  calls := u.calls
  costUsd := u.costUsd
  costEvidence := if rule.metric = .costUsd then some u.costEvidence else none

/-- `collect`: one sample for each instant, over the window behind it. -/
def collect (rule : LimitRule) (instants : List Time)
    (usageAt : Time → Time → Except StoreError Usage) : Except StoreError (List BacktestSample) :=
  instants.mapM fun t => (usageAt (rule.window.since t) t).map (sampleOf rule t)

/-- `sampler`. -/
def sampler (reads : UsageReads) (rows : List EventRow) (project : String)
    (scope : Option LimitScope) (since until_ : Time) : Except StoreError Usage :=
  Preview.windowUsage reads rows project since (some until_) scope

/-- `candidate`: the rule of a preview. -/
def candidate (project : String) (metric : LimitMetric) (window : LimitWindow) (threshold : ℚ)
    (action : LimitAction) (warnAt : Option ℚ) (scope : Option LimitScope) : LimitRule where
  id := "preview"
  projectId := project
  metric := metric
  window := window
  threshold := .fixed threshold
  action := action
  warnAt := warnAt
  scope := scope

/-- `preview_limit`: the replay of a candidate over the store. -/
def previewLimit (reads : UsageReads) (rows : List EventRow) (rule : LimitRule)
    (instants : List Time) : Except StoreError Backtest :=
  let resolved := rule.threshold.resolve none
  (collect rule instants (sampler reads rows rule.projectId rule.scope)).map
    (replay rule resolved.1 resolved.2)

/-- The usage a stored rule is evaluated against. -/
def liveUsage (reads : UsageReads) (rows : List EventRow) (rule : LimitRule) (now : Time) :
    Except StoreError Usage :=
  match rule.scope with
  | none => reads.usageSince rows rule.projectId (rule.window.since now)
  | some s => reads.usageSinceScoped rows rule.projectId (rule.window.since now) s

/-- The status of a stored rule. -/
def liveStatus (reads : UsageReads) (rows : List EventRow) (rule : LimitRule) (now : Time) :
    Except StoreError LimitStatus :=
  let resolved := rule.threshold.resolve none
  (liveUsage reads rows rule now).map fun u =>
    evaluateRuleResolvedAt rule u resolved.1 resolved.2 now

/-! ## What is compared -/

/-- The figures of a verdict. -/
structure CapFigures where
  current : ℚ
  ratio : WithTop ℚ
  shedFraction : ℚ
  warning : Bool
  breached : Bool
  deriving DecidableEq

/-- The figures of a replayed step. -/
def BacktestStep.capFigures (s : BacktestStep) : CapFigures :=
  ⟨s.current, s.ratio, s.shedFraction, s.warning, s.breached⟩

/-- The figures of a status. -/
def LimitStatus.capFigures (s : LimitStatus) : CapFigures :=
  ⟨s.current, s.ratio, s.shedFraction, s.warning, s.breached⟩

/-- The step of a replay at one instant. -/
def previewStep (reads : UsageReads) (rows : List EventRow) (rule : LimitRule) (t : Time) :
    Except StoreError BacktestStep :=
  let resolved := rule.threshold.resolve none
  (sampler reads rows rule.projectId rule.scope (rule.window.since t) t).map fun u =>
    replayStep rule resolved.1 resolved.2 (sampleOf rule t u)

/-- The step at `t` is the status of the stored rule at `t` over the rows `seen`: either both can
be read, with the same figures, or neither can. -/
def StepIsLive (reads : UsageReads) (rows : List EventRow) (rule : LimitRule) (id : String)
    (t : Time) (seen : List EventRow) : Prop :=
  (previewStep reads rows rule t).toOption.map BacktestStep.capFigures =
    (liveStatus reads seen { rule with id := id } t).toOption.map LimitStatus.capFigures

instance (reads : UsageReads) (rows : List EventRow) (rule : LimitRule) (id : String) (t : Time)
    (seen : List EventRow) : Decidable (StepIsLive reads rows rule id t seen) :=
  inferInstanceAs (Decidable (_ = _))

/-- The rows received before an instant. -/
def rowsBefore (t : Time) (rows : List EventRow) : List EventRow :=
  rows.filter fun r => decide (r.windowTs < t)

/-- Every earlier step of a replay that ends at `now` is what the stored rule would have answered
on the rows received before it, and the last step what the stored rule answers. -/
structure PreviewIsLive (reads : UsageReads) (rows : List EventRow) (rule : LimitRule) (id : String)
    (earlier : List Time) (now : Time) : Prop where
  steps : (previewLimit reads rows rule (earlier ++ [now])).map Backtest.timeline =
    (earlier ++ [now]).mapM (previewStep reads rows rule)
  earlier : ∀ t ∈ earlier, StepIsLive reads rows rule id t (rowsBefore t rows)
  last : StepIsLive reads rows rule id now rows

/-- **A replay is one step for each instant**, read where all can be read. -/
theorem timeline_previewLimit (reads : UsageReads) (rows : List EventRow) (rule : LimitRule)
    (instants : List Time) :
    (previewLimit reads rows rule instants).map Backtest.timeline =
      instants.mapM (previewStep reads rows rule) := by
  have htimeline : ∀ threshold basis, Backtest.timeline ∘ replay rule threshold basis =
      List.map (replayStep rule threshold basis) :=
    fun threshold basis => funext fun samples => timeline_replay rule threshold basis samples
  unfold previewLimit collect
  rw [Traverse.map_map, htimeline, Traverse.map_mapM]
  refine Traverse.mapM_congr ?_
  intro t _
  rw [Traverse.map_map]
  rfl

/-- The figures of a rule over a usage. -/
def figuresOf (rule : LimitRule) (t : Time) (u : Usage) : CapFigures :=
  (evaluateRuleResolvedAt rule u (rule.threshold.resolve none).1 (rule.threshold.resolve none).2
    t).capFigures

/-- Two usages give a rule the same figures exactly when they agree on its metric. -/
theorem figuresOf_eq_iff (rule : LimitRule) (t : Time) (u v : Usage) :
    figuresOf rule t u = figuresOf rule t v ↔ u.metricValue rule.metric = v.metricValue rule.metric := by
  constructor
  · intro h
    exact congrArg CapFigures.current h
  · intro h
    unfold figuresOf evaluateRuleResolvedAt LimitRule.evaluateResolvedAt LimitStatus.capFigures
    simp only [h]

/-- A step is live exactly when the two measurements are the same for the rule. -/
theorem stepIsLive_iff (reads : UsageReads) (rows seen : List EventRow) (rule : LimitRule)
    (id : String) (t : Time) :
    StepIsLive reads rows rule id t seen ↔
      (sampler reads rows rule.projectId rule.scope (rule.window.since t) t).toOption.map
          (figuresOf rule t) =
        (liveUsage reads seen rule t).toOption.map (figuresOf rule t) := by
  unfold StepIsLive previewStep liveStatus
  rw [Traverse.toOption_map, Traverse.toOption_map, Option.map_map, Option.map_map]
  rfl

/-! ## The rows a step reads -/

/-- A query reads no more than the rows it selects. -/
theorem rollup_congr {rows rows' : List EventRow} {q q' : RollupQuery}
    (hinvalid : q.invalid = q'.invalid) (hgroup : q.groupBy = q'.groupBy)
    (hkey : q.timeKey = q'.timeKey)
    (hrows : rows.filter q.selects = rows'.filter q'.selects) : rollup rows q = rollup rows' q' := by
  unfold rollup RollupQuery.groups
  rw [hinvalid, hgroup, hkey, hrows]

theorem Postgres.rollup_congr {rows rows' : List EventRow} {q q' : RollupQuery}
    (hinvalid : q.invalid = q'.invalid) (hgroup : q.groupBy = q'.groupBy)
    (hkey : q.timeKey = q'.timeKey)
    (hrows : Traverse.select (Postgres.selects q) rows =
      Traverse.select (Postgres.selects q') rows') :
    Postgres.rollup rows q = Postgres.rollup rows' q' := by
  have hkeyed : Postgres.keyed q = Postgres.keyed q' := by
    funext r
    unfold Postgres.keyed
    rw [hgroup, hkey]
  unfold Postgres.rollup Postgres.groups
  rw [hinvalid, hkeyed, hrows]

theorem filter_rowsBefore {t : Time} {rows : List EventRow} {p q : EventRow → Bool}
    (h : ∀ r ∈ rows, p r = (q r && decide (r.windowTs < t))) :
    rows.filter p = (rowsBefore t rows).filter q := by
  unfold rowsBefore
  rw [List.filter_filter]
  exact List.filter_congr h

theorem select_rowsBefore {t : Time} {rows : List EventRow} {p q : EventRow → Except PgError Bool}
    (h : ∀ r ∈ rows, p r = if r.windowTs < t then q r else .ok false) :
    Traverse.select p rows = Traverse.select q (rowsBefore t rows) := by
  unfold rowsBefore
  rw [Traverse.select_filter]
  refine Traverse.select_congr ?_
  intro r hr
  rw [h r hr]
  by_cases ht : r.windowTs < t <;> simp [ht]

section Bound

variable {q : RollupQuery} {t : Time}

/-- The query with another end. -/
def RollupQuery.endingAt (q : RollupQuery) (until_ : Option Time) : RollupQuery :=
  { q with until_ := until_ }

/-- The end of a window that does not precede its start is no reason to refuse. -/
theorem RollupQuery.invalid_endingAt (h : q.since ≤ t) :
    (q.endingAt (some t)).invalid = (q.endingAt none).invalid := by
  have hend : decide (t < q.since) = false := decide_eq_false (not_lt.2 h)
  unfold RollupQuery.invalid RollupQuery.endingAt
  simp only [Option.any_some, Option.any_none, hend]

/-- A row is selected up to an instant when it is selected and was received before. -/
theorem RollupQuery.selects_endingAt (hkey : q.timeKey = .receivedAt) (r : EventRow) :
    (q.endingAt (some t)).selects r = ((q.endingAt none).selects r && decide (r.windowTs < t)) := by
  unfold RollupQuery.selects RollupQuery.endingAt
  simp only [hkey, timeExpr, Option.all_some, Option.all_none, Bool.and_true]
  ac_rfl

/-- A filter does not read the end of the window. -/
theorem Postgres.filterHit_endingAt (until_ : Option Time) (r : EventRow)
    (fs : List (Dimension × String)) :
    Postgres.filterHit (q.endingAt until_) r fs = Postgres.filterHit q r fs := by
  induction fs with
  | nil => rfl
  | cons f fs ih =>
    unfold Postgres.filterHit
    rw [ih]
    rfl

theorem Postgres.selects_endingAt (hkey : q.timeKey = .receivedAt) (r : EventRow) :
    Postgres.selects (q.endingAt (some t)) r =
      if r.windowTs < t then Postgres.selects (q.endingAt none) r else .ok false := by
  unfold Postgres.selects
  rw [Postgres.filterHit_endingAt, Postgres.filterHit_endingAt]
  unfold RollupQuery.endingAt
  by_cases hr : r.windowTs < t
  · simp only [hkey, timeExpr, Option.all_some, Option.all_none, hr, decide_true, Bool.and_true,
      if_true]
  · simp only [hkey, timeExpr, Option.all_some, hr, decide_false, Bool.and_false, Bool.false_and,
      Bool.false_eq_true, if_false]

/-- **Up to an instant, a rollup reads the rows received before it.** -/
theorem rollup_endingAt (hkey : q.timeKey = .receivedAt) (h : q.since ≤ t) (rows : List EventRow) :
    rollup rows (q.endingAt (some t)) = rollup (rowsBefore t rows) (q.endingAt none) :=
  rollup_congr (RollupQuery.invalid_endingAt h) rfl rfl
    (filter_rowsBefore fun r _ => RollupQuery.selects_endingAt hkey r)

theorem Postgres.rollup_endingAt (hkey : q.timeKey = .receivedAt) (h : q.since ≤ t)
    (rows : List EventRow) :
    Postgres.rollup rows (q.endingAt (some t)) =
      Postgres.rollup (rowsBefore t rows) (q.endingAt none) :=
  Postgres.rollup_congr (RollupQuery.invalid_endingAt h) rfl rfl
    (select_rowsBefore fun r _ => Postgres.selects_endingAt hkey r)

end Bound

/-- A store whose rollup up to an instant is the rollup of the rows received before it. -/
def UsageReads.Bounded (reads : UsageReads) : Prop :=
  ∀ rows (q : RollupQuery) t, q.timeKey = .receivedAt → q.since ≤ t →
    reads.rollup rows (q.endingAt (some t)) = reads.rollup (rowsBefore t rows) (q.endingAt none)

theorem sqliteReads_bounded : sqliteReads.Bounded :=
  fun rows _ _ hkey h => rollup_endingAt hkey h rows

theorem postgresReads_bounded : postgresReads.Bounded :=
  fun rows _ _ hkey h => Postgres.rollup_endingAt hkey h rows

/-- **A measurement up to an instant reads the rows received before it.** -/
theorem windowUsage_rowsBefore {reads : UsageReads} (hreads : reads.Bounded) (rows : List EventRow)
    (project : String) {since t : Time} (ht : since ≤ t) (scope : Option LimitScope) :
    Preview.windowUsage reads rows project since (some t) scope =
      Preview.windowUsage reads (rowsBefore t rows) project since none scope := by
  have hwindow := fun fs => hreads rows (windowQuery project since none fs) t rfl ht
  have hfold := hreads rows (foldQuery project since none) t rfl ht
  change ∀ fs, reads.rollup rows (windowQuery project since (some t) fs) = reads.rollup
    (rowsBefore t rows) (windowQuery project since none fs) at hwindow
  change reads.rollup rows (foldQuery project since (some t)) = reads.rollup
    (rowsBefore t rows) (foldQuery project since none) at hfold
  unfold Preview.windowUsage
  simp only [hwindow, hfold]

end LightTrack
