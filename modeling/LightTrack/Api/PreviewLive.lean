import LightTrack.Api.LimitsReplay

/-! # A previewed cap and a created cap

A step of a preview and the status of the stored rule measure the same rows.  The preview sums the
two token columns apart and clamps each at zero, as every rollup does; the live usage adds them row
by row.

* `windowUsage_sqlite_eq_ok_iff`, `windowUsage_postgres_eq_ok_iff` : what a step measures,
* `stepIsLive_sqlite_iff`, `stepIsLive_postgres_iff` : when it is what the stored rule would have
  answered,
* `preview_isLive_iff` : the same for a whole replay.
-/

namespace LightTrack

/-! ## The rows under a scope -/

/-- `LimitScope::dimension`. -/
def LimitScope.dimension : LimitScope → Dimension
  | .provider _ => .provider
  | .model _ => .model
  | .name _ => .name
  | .apiKey _ => .apiKey
  | .customer _ => .customer

theorem Dimension.parse_asStr (d : Dimension) : Dimension.parse d.asStr = some d := by
  cases d <;> decide

/-- Every scope is answerable by a dimension. -/
theorem Dimension.parse_kindStr (s : LimitScope) :
    Dimension.parse s.kindStr = some s.dimension := by
  have hkind : s.kindStr = s.dimension.asStr := by cases s <;> rfl
  rw [hkind, Dimension.parse_asStr]

/-- A dimension reads what its scope compares. -/
theorem keyExpr_dimension (k : TimeKey) (s : LimitScope) (r : EventRow) :
    keyExpr k s.dimension r = scopeExpr s r := by
  cases s <;> rfl

theorem Postgres.keyExpr_dimension (k : TimeKey) (s : LimitScope) (r : EventRow) :
    Postgres.keyExpr k s.dimension r = Postgres.scopeExpr s r := by
  cases s with
  | name v => cases hname : r.name <;> simp [Postgres.keyExpr, Dimension.storage,
      LimitScope.dimension, Postgres.scopeExpr, hname, SqlValue.asText]
  | _ => rfl

/-- The filter of a scope. -/
def scopeFilter (scope : Option LimitScope) : List (Dimension × String) :=
  scope.toList.map fun s => (s.dimension, s.value)

/-- Whether SQLite finds a row in the window of a rule. -/
def windowHit (project : String) (since : Time) (scope : Option LimitScope) (r : EventRow) : Bool :=
  inWindow project since r && scope.all fun s => scopeExpr s r == .text s.value

/-- Whether Postgres finds a row in the window of a rule. -/
def Postgres.windowHit (project : String) (since : Time) (scope : Option LimitScope)
    (r : EventRow) : Except PgError Bool :=
  match scope with
  | none => .ok (inWindow project since r)
  | some s => scopeHit project since s r

/-- Whether the members of the scope are decided by the fold of canonical families. -/
def foldsFamily (scope : Option LimitScope) : Bool := scope.any LimitScope.foldsCanonicalFamily

section Window

variable {project : String} {since : Time} {scope : Option LimitScope}

theorem selects_windowQuery (r : EventRow) :
    (windowQuery project since none (scopeFilter scope)).selects r =
      windowHit project since scope r := by
  unfold RollupQuery.selects windowHit
  cases scope with
  | none => simp [windowQuery, scopeFilter, inWindow, timeExpr]
  | some s => simp [windowQuery, scopeFilter, inWindow, timeExpr, keyExpr_dimension]

theorem Postgres.selects_windowQuery (r : EventRow) :
    Postgres.selects (windowQuery project since none (scopeFilter scope)) r =
      Postgres.windowHit project since scope r := by
  have hcols : ∀ fs, Postgres.selects (windowQuery project since none fs) r =
      if inWindow project since r then
        Postgres.filterHit (windowQuery project since none fs) r fs else .ok false := by
    intro fs
    simp only [Postgres.selects, windowQuery, timeExpr, Option.all_some, Option.all_none,
      Bool.not_false, Bool.true_or, Bool.and_true]
    rfl
  rw [hcols]
  unfold Postgres.windowHit
  cases scope with
  | none =>
    simp only [scopeFilter, Option.toList_none, List.map_nil, Postgres.filterHit]
    cases inWindow project since r <;> rfl
  | some s =>
    simp only [scopeFilter, Option.toList_some, List.map_cons, List.map_nil, Postgres.filterHit,
      Postgres.keyExpr_dimension, Postgres.scopeHit]
    cases inWindow project since r with
    | false => rfl
    | true =>
      simp only [if_true]
      cases Postgres.scopeExpr s r with
      | error e => rfl
      | ok v =>
        simp only [Except.map]
        cases v == some s.value <;> rfl

theorem invalid_windowQuery :
    (windowQuery project since none (scopeFilter scope)).invalid = none := by
  cases scope with
  | none => simp [RollupQuery.invalid, windowQuery, scopeFilter, MAX_GROUP_BY, List.zipIdx]
  | some s =>
    have hday : (s.dimension == .day) = false := by cases s <;> rfl
    simp [RollupQuery.invalid, windowQuery, scopeFilter, MAX_GROUP_BY, List.zipIdx, hday]

/-- A scope that is compared exactly is measured by a filtered rollup. -/
theorem windowUsage_of_exact {reads : UsageReads} {rows : List EventRow} {until_ : Option Time}
    (h : foldsFamily scope = false) :
    Preview.windowUsage reads rows project since until_ scope =
      (reads.rollup rows (windowQuery project since until_ (scopeFilter scope))).map sumRollup := by
  unfold Preview.windowUsage
  cases scope with
  | none => rfl
  | some s =>
    have hs : s.foldsCanonicalFamily = false := h
    simp only [hs, Bool.false_eq_true, if_false, Dimension.parse_kindStr]
    rfl

end Window

/-! ## What a step measures -/

/-- The usage a readable group of rows is summed to: as it was contributed, except that the tokens
carry what the clamp added and wrap. -/
def clampedUsage (rows : List EventRow) : Usage :=
  { (rows.map EventRow.contribution).sum with
    tokens := wrapI64 ((tokenSums rows).sum + clampLoss rows) }

theorem sumRollup_groupRow (keys : List (Option String)) {rows : List EventRow}
    (h : GroupTotalsFit rows) : sumRollup [groupRow keys rows] = clampedUsage rows := by
  have htokens := readGroup_tokens_emod (g := (([] : List SqlValue), rows)) h
  have hsum := sum_contribution rows
  have hunpriced := length_filter_eq_sum (fun r : EventRow => r.costUsd.isNone) rows
  unfold clampedUsage sumRollup
  rw [hsum]
  simp only [List.foldl_cons, List.foldl_nil, addRollupRow, Usage.default, zero_add]
  ext
  · rfl
  · rfl
  · dsimp only
    apply (wrapI64_inI64 _).eq_of_emod (wrapI64_inI64 _)
    rw [wrapI64_emod, wrapI64_emod]
    exact htokens
  · exact hunpriced
  · rfl

/-! ### On SQLite -/

section Sqlite

variable {project : String} {since : Time} {scope : Option LimitScope} {rows : List EventRow}

/-- All rows of the window are in one group. -/
theorem groups_windowQuery :
    (windowQuery project since none (scopeFilter scope)).groups rows =
      if rows.filter (windowHit project since scope) = [] then []
      else [([.text project], rows.filter (windowHit project since scope))] := by
  have hsel : (windowQuery project since none (scopeFilter scope)).selects =
      windowHit project since scope := funext selects_windowQuery
  unfold RollupQuery.groups
  rw [hsel]
  refine Group.groupsBy_const ?_
  intro r hr
  have hproject : r.projectId = project := by
    have hhit := (List.mem_filter.1 hr).2
    unfold windowHit inWindow at hhit
    simp only [Bool.and_eq_true, beq_iff_eq] at hhit
    exact hhit.1.1
  rw [← hproject]
  rfl

/-- **What a step measures on SQLite**: the rows of its window, where their token columns can be
summed. -/
theorem windowUsage_sqlite_eq_ok_iff (h : foldsFamily scope = false) (u : Usage) :
    Preview.windowUsage sqliteReads rows project since none scope = .ok u ↔
      SumsFit (rows.filter (windowHit project since scope)) ∧
        u = clampedUsage (rows.filter (windowHit project since scope)) := by
  have hread : ∀ (gs : List (List SqlValue × List EventRow)) out, gs.mapM rollupRow = .ok out ↔
      (∀ g ∈ gs, (∀ k ∈ g.1, k.IsTextual) ∧ SumsFit g.2) ∧ out = gs.map readGroup :=
    fun gs out => Traverse.mapM_eq_map_iff rollupRow_eq_ok_iff
  have hrollup : ∀ out, rollup rows (windowQuery project since none (scopeFilter scope)) = .ok out ↔
      ((windowQuery project since none (scopeFilter scope)).groups rows).mapM rollupRow = .ok out := by
    intro out
    unfold rollup
    rw [invalid_windowQuery]
    cases ((windowQuery project since none (scopeFilter scope)).groups rows).mapM rollupRow <;> simp
  rw [windowUsage_of_exact h, Traverse.map_eq_ok_iff]
  change (∃ out, rollup rows _ = .ok out ∧ _) ↔ _
  simp only [hrollup, hread, groups_windowQuery]
  by_cases hnil : rows.filter (windowHit project since scope) = []
  · simp only [hnil, if_true, List.not_mem_nil, false_imp_iff, implies_true, true_and, List.map_nil,
      exists_eq_left]
    have hfits : SumsFit [] := by decide
    have hempty : sumRollup [] = clampedUsage [] := by decide
    rw [hempty]
    exact ⟨fun hu => ⟨hfits, hu⟩, And.right⟩
  · rw [if_neg hnil]
    simp only [List.mem_singleton, forall_eq, List.map_singleton]
    constructor
    · intro hex
      rcases hex with ⟨out, ⟨⟨-, hfits⟩, rfl⟩, hu⟩
      exact ⟨hfits, hu.trans (sumRollup_groupRow _ hfits.groupTotalsFit)⟩
    · intro hu
      rcases hu with ⟨hfits, rfl⟩
      exact ⟨_, ⟨⟨.inr ⟨project, rfl⟩, hfits⟩, rfl⟩,
        (sumRollup_groupRow _ hfits.groupTotalsFit).symm⟩

/-- What the stored rule is measured by on SQLite: the same rows, added row by row. -/
theorem liveUsage_sqlite {rule : LimitRule} (h : foldsFamily rule.scope = false) (t : Time) :
    liveUsage sqliteReads rows rule t =
      usageCols (rows.filter (windowHit rule.projectId (rule.window.since t) rule.scope)) := by
  unfold liveUsage
  cases hscope : rule.scope with
  | none =>
    have hhit : windowHit rule.projectId (rule.window.since t) none =
        inWindow rule.projectId (rule.window.since t) := funext fun r => Bool.and_true _
    rw [hhit]
    rfl
  | some s =>
    have hs : s.foldsCanonicalFamily = false := by
      rw [hscope] at h
      exact h
    change usageSinceScoped rows _ _ s = _
    unfold usageSinceScoped
    rw [hs]
    rfl

end Sqlite

/-! ### On Postgres -/

/-- The mark of a client's own price can be read. -/
def ClientCostReadable (r : EventRow) : Prop := ∃ x, Postgres.clientCost r = .ok x

/-- The cost Postgres sums as the client's own. -/
def pgClientCost (rows : List EventRow) : ℚ :=
  (rows.map fun r => (Postgres.clientCost r).toOption.getD 0).sum

/-- When the live aggregate over these rows can be read on Postgres, where the marks can. -/
def PgTokensFit (rows : List EventRow) : Prop :=
  (∀ r ∈ rows, r.TokensFit) ∧ InI64 (tokenSums rows).sum

/-- The rows Postgres finds in the window of a rule. -/
def pgHits (rows : List EventRow) (project : String) (since : Time) (scope : Option LimitScope) :
    List EventRow :=
  rows.filter fun r => (Postgres.windowHit project since scope r).toOption.getD false

/-- When the rows of the window of a rule can be selected, and their marks read. -/
structure PgWindowReadable (rows : List EventRow) (project : String) (since : Time)
    (scope : Option LimitScope) : Prop where
  select : ∀ r ∈ rows, ∃ b, Postgres.windowHit project since scope r = .ok b
  client : ∀ r ∈ pgHits rows project since scope, ClientCostReadable r

theorem mapM_clientCost_eq_ok_iff (rows : List EventRow) (xs : List ℚ) :
    rows.mapM Postgres.clientCost = .ok xs ↔
      (∀ r ∈ rows, ClientCostReadable r) ∧
        xs = rows.map fun r => (Postgres.clientCost r).toOption.getD 0 :=
  Traverse.mapM_eq_map_iff fun _ _ => Traverse.eq_ok_iff

theorem select_windowHit_eq_ok_iff {project : String} {since : Time} {scope : Option LimitScope}
    {rows hits : List EventRow} :
    Traverse.select (Postgres.windowHit project since scope) rows = .ok hits ↔
      (∀ r ∈ rows, ∃ b, Postgres.windowHit project since scope r = .ok b) ∧
        hits = pgHits rows project since scope :=
  Traverse.select_eq_ok_iff fun _ _ _ => Traverse.eq_ok_iff

/-- The live aggregate, whatever the metadata holds. -/
theorem Postgres.usageCols_eq_ok_iff_of_readable (rows : List EventRow) (u : Usage) :
    Postgres.usageCols rows = .ok u ↔
      ((∀ r ∈ rows, ClientCostReadable r) ∧ PgTokensFit rows) ∧
        u = { (rows.map EventRow.contribution).sum with clientCostUsd := pgClientCost rows } :=
  usageCols_eq_ok_iff_of_costs (mapM_clientCost_eq_ok_iff rows) u

/-- One group, whatever the metadata holds. -/
theorem Postgres.rollupRow_eq_ok_iff_of_readable (g : List (Option String) × List EventRow)
    (row : RollupRow) :
    Postgres.rollupRow g = .ok row ↔
      ((∀ r ∈ g.2, ClientCostReadable r) ∧ GroupTotalsFit g.2) ∧
        row = { groupRow g.1 g.2 with clientReportedCostUsd := pgClientCost g.2 } :=
  rollupRow_eq_ok_iff_of_costs (mapM_clientCost_eq_ok_iff g.2) row

section Postgres

variable {project : String} {since : Time} {scope : Option LimitScope} {rows : List EventRow}

/-- What Postgres finds is in the window. -/
theorem projectId_of_mem_pgHits {r : EventRow} (h : r ∈ pgHits rows project since scope) :
    r.projectId = project := by
  have hhit := (List.mem_filter.1 h).2
  have hwin : inWindow project since r = true := by
    by_contra hwin
    have hno : inWindow project since r = false := by simpa using hwin
    unfold Postgres.windowHit at hhit
    cases scope with
    | none => simp [hno, Except.toOption] at hhit
    | some s => simp [Postgres.scopeHit, hno, Except.toOption] at hhit
  unfold inWindow at hwin
  simp only [Bool.and_eq_true, beq_iff_eq] at hwin
  exact hwin.1

/-- The groups of the window: all its rows in one. -/
theorem Postgres.groups_windowQuery {hits : List EventRow}
    (hsel : Traverse.select (Postgres.windowHit project since scope) rows = .ok hits) :
    Postgres.groups (windowQuery project since none (scopeFilter scope)) rows =
      .ok (if hits = [] then [] else [([some project], hits)]) := by
  have hselects : Postgres.selects (windowQuery project since none (scopeFilter scope)) =
      Postgres.windowHit project since scope := funext Postgres.selects_windowQuery
  have hkeyed : hits.mapM (keyed (windowQuery project since none (scopeFilter scope))) =
      .ok (hits.map fun r => ([some r.projectId], r)) := by
    refine (Traverse.mapM_eq_map_iff (P := fun _ => True) ?_).2 ⟨fun _ _ => trivial, rfl⟩
    intro r b
    rw [true_and]
    simp [keyed, windowQuery, keyExpr, Dimension.storage, SqlValue.asText, Except.map, pure,
      Except.pure, bind, Except.bind, eq_comm]
  have hproject : ∀ r ∈ hits, [some r.projectId] = [some project] := by
    intro r hr
    rw [(select_windowHit_eq_ok_iff.1 hsel).2] at hr
    rw [projectId_of_mem_pgHits hr]
  unfold Postgres.groups
  rw [hselects, hsel]
  simp only [hkeyed, Except.map]
  rw [Group.groupsBy_graph, Group.groupsBy_const hproject]

/-- The usage a readable group is summed to on Postgres. -/
def pgClampedUsage (rows : List EventRow) : Usage :=
  { clampedUsage rows with clientCostUsd := pgClientCost rows }

theorem sumRollup_pgRow (keys : List (Option String)) {rows : List EventRow}
    (h : GroupTotalsFit rows) :
    sumRollup [{ groupRow keys rows with clientReportedCostUsd := pgClientCost rows }] =
      pgClampedUsage rows := by
  unfold pgClampedUsage
  rw [← sumRollup_groupRow keys h]
  simp only [sumRollup, List.foldl_cons, List.foldl_nil, addRollupRow, Usage.default,
    RollupRow.tokens, zero_add]

/-- **What a step measures on Postgres**: the rows of its window, where they can be selected, their
marks read, and the totals of their token columns fit. -/
theorem windowUsage_postgres_eq_ok_iff (h : foldsFamily scope = false) (u : Usage) :
    Preview.windowUsage postgresReads rows project since none scope = .ok u ↔
      (PgWindowReadable rows project since scope ∧ GroupTotalsFit (pgHits rows project since scope)) ∧
        u = pgClampedUsage (pgHits rows project since scope) := by
  have hread : ∀ (gs : List (List (Option String) × List EventRow)) out,
      gs.mapM Postgres.rollupRow = .ok out ↔
        (∀ g ∈ gs, (∀ r ∈ g.2, ClientCostReadable r) ∧ GroupTotalsFit g.2) ∧
          out = gs.map fun g =>
            { groupRow g.1 g.2 with clientReportedCostUsd := pgClientCost g.2 } :=
    fun gs out => Traverse.mapM_eq_map_iff Postgres.rollupRow_eq_ok_iff_of_readable
  rw [windowUsage_of_exact h, Traverse.map_eq_ok_iff]
  change (∃ out, Postgres.rollup rows _ = .ok out ∧ _) ↔ _
  unfold Postgres.rollup
  rw [invalid_windowQuery]
  cases hsel : Traverse.select (Postgres.windowHit project since scope) rows with
  | error e =>
    -- the window cannot be selected
    have hno : ¬ PgWindowReadable rows project since scope := by
      intro hreadable
      rw [select_windowHit_eq_ok_iff.2 ⟨hreadable.select, rfl⟩] at hsel
      cases hsel
    have hselects : Postgres.selects (windowQuery project since none (scopeFilter scope)) =
        Postgres.windowHit project since scope := funext Postgres.selects_windowQuery
    unfold Postgres.groups
    rw [hselects, hsel]
    simp [hno]
  | ok hits =>
    have hgroups := Postgres.groups_windowQuery hsel
    rcases select_windowHit_eq_ok_iff.1 hsel with ⟨hall, rfl⟩
    simp only [hgroups, Traverse.mapError_eq_ok_iff, hread]
    by_cases hnil : pgHits rows project since scope = []
    · have hfits : GroupTotalsFit [] := by decide
      have hreadable : PgWindowReadable rows project since scope := by
        refine ⟨hall, ?_⟩
        rw [hnil]
        exact fun r hr => absurd hr List.not_mem_nil
      have hempty : sumRollup [] = pgClampedUsage [] := by decide
      rw [if_pos hnil, hnil, ← hempty]
      simp only [List.not_mem_nil, false_imp_iff, implies_true, true_and, List.map_nil,
        exists_eq_left]
      exact ⟨fun hu => ⟨⟨hreadable, hfits⟩, hu⟩, And.right⟩
    · rw [if_neg hnil]
      simp only [List.mem_singleton, forall_eq, List.map_singleton]
      constructor
      · intro hex
        rcases hex with ⟨out, ⟨⟨hclient, hfits⟩, rfl⟩, hu⟩
        exact ⟨⟨⟨hall, hclient⟩, hfits⟩, hu.trans (sumRollup_pgRow _ hfits)⟩
      · intro hu
        rcases hu with ⟨⟨hreadable, hfits⟩, rfl⟩
        exact ⟨_, ⟨⟨hreadable.client, hfits⟩, rfl⟩, (sumRollup_pgRow _ hfits).symm⟩

/-- **What the stored rule is measured by on Postgres**: the same rows, added row by row. -/
theorem liveUsage_postgres_eq_ok_iff {rule : LimitRule} (h : foldsFamily rule.scope = false)
    (t : Time) (u : Usage) :
    liveUsage postgresReads rows rule t = .ok u ↔
      (PgWindowReadable rows rule.projectId (rule.window.since t) rule.scope ∧
        PgTokensFit (pgHits rows rule.projectId (rule.window.since t) rule.scope)) ∧
          u = { ((pgHits rows rule.projectId (rule.window.since t) rule.scope).map
                EventRow.contribution).sum with
              clientCostUsd :=
                pgClientCost (pgHits rows rule.projectId (rule.window.since t) rule.scope) } := by
  -- with or without a scope, the rule selects rows and then sums them
  have hlive : liveUsage postgresReads rows rule t = .ok u ↔
      ∃ hits, Traverse.select (Postgres.windowHit rule.projectId (rule.window.since t) rule.scope)
          rows = .ok hits ∧ Postgres.usageCols hits = .ok u := by
    unfold liveUsage
    cases hscope : rule.scope with
    | none =>
      have hsel : Traverse.select
          (Postgres.windowHit rule.projectId (rule.window.since t) none) rows =
          .ok (rows.filter (inWindow rule.projectId (rule.window.since t))) := by
        refine (Traverse.select_eq_ok_iff (P := fun _ => True) ?_).2 ⟨fun _ _ => trivial, rfl⟩
        intro r _ b
        rw [true_and]
        exact ⟨fun hb => (Except.ok.inj hb).symm, fun hb => congrArg Except.ok hb.symm⟩
      rw [hsel]
      simp only [Except.ok.injEq, exists_eq_left']
      exact Traverse.mapError_eq_ok_iff
    | some s =>
      have hs : s.foldsCanonicalFamily = false := by
        rw [hscope] at h
        exact h
      change Postgres.usageSinceScoped rows _ _ s = .ok u ↔ _
      unfold Postgres.usageSinceScoped
      rw [hs, if_neg Bool.false_ne_true]
      refine Traverse.mapError_eq_ok_iff.trans ?_
      unfold Postgres.selectScoped
      change _ ↔ ∃ hits, Traverse.select (Postgres.scopeHit _ _ s) rows = .ok hits ∧ _
      cases Traverse.select (Postgres.scopeHit rule.projectId (rule.window.since t) s) rows <;> simp
  rw [hlive]
  simp only [select_windowHit_eq_ok_iff, Postgres.usageCols_eq_ok_iff_of_readable]
  constructor
  · intro hex
    rcases hex with ⟨hits, ⟨hall, rfl⟩, ⟨hclient, hfits⟩, hu⟩
    exact ⟨⟨⟨hall, hclient⟩, hfits⟩, hu⟩
  · intro hu
    rcases hu with ⟨⟨hreadable, hfits⟩, hu⟩
    exact ⟨_, ⟨hreadable.select, rfl⟩, ⟨hreadable.client, hfits⟩, hu⟩

end Postgres

/-! ## When the two agree -/

/-- No token column of the rows adds up to less than zero. -/
def ColumnsNonneg (rows : List EventRow) : Prop :=
  0 ≤ (rows.map EventRow.inputTokens).sum ∧ 0 ≤ (rows.map EventRow.outputTokens).sum

/-- The condition of a step on SQLite, over the rows it charges: the columns can be summed apart
exactly when they can be summed together, and what a token cap compares needs no clamp. -/
structure SqliteExact (metric : LimitMetric) (charged : List EventRow) : Prop where
  readable : SumsFit charged ↔ GroupFits charged
  columns : SumsFit charged → metric = .tokens → ColumnsNonneg charged

/-- The condition of a step on Postgres, over the rows it charges. -/
structure PgExact (metric : LimitMetric) (charged : List EventRow) : Prop where
  readable : GroupTotalsFit charged ↔ PgTokensFit charged
  columns : GroupTotalsFit charged → metric = .tokens → ColumnsNonneg charged

theorem GroupFits.inI64_tokens {rows : List EventRow} (h : GroupFits rows) :
    InI64 (tokenSums rows).sum := by
  have hzero : InI64 0 := by decide
  have hsum := h.2.inI64_sum hzero
  rwa [zero_add] at hsum

/-- The clamp keeps a total that is an `i64` exactly when it finds nothing to clamp. -/
theorem clamped_eq_iff {rows : List EventRow} (hcols : GroupTotalsFit rows)
    (h : InI64 (tokenSums rows).sum) :
    wrapI64 ((tokenSums rows).sum + clampLoss rows) = (tokenSums rows).sum ↔ ColumnsNonneg rows := by
  have hsplit : (tokenSums rows).sum =
      (rows.map EventRow.inputTokens).sum + (rows.map EventRow.outputTokens).sum := by
    unfold tokenSums
    exact List.sum_map_add
  have hwrap : (tokenSums rows).sum = wrapI64 ((tokenSums rows).sum + clampLoss rows) ↔
      InI64 (tokenSums rows).sum ∧ 2 * i64Bound ∣ clampLoss rows := eq_wrapI64_add_iff rfl
  -- a loss between zero and `2 ^ 64` vanishes modulo `2 ^ 64` only when it is none
  have hloss : ∀ a b : Int, InI64 a ∧ InI64 b → InI64 (a + b) →
      (InI64 (a + b) ∧ 2 * i64Bound ∣ max (-a) 0 + max (-b) 0 ↔ 0 ≤ a ∧ 0 ≤ b) := by
    intro a b hcols hab
    unfold InI64 i64Bound at *
    omega
  rw [eq_comm, hwrap]
  rw [hsplit] at h ⊢
  exact hloss _ _ hcols h

theorem metricValue_tokens_iff (u : Usage) (n : Int) (m : LimitMetric) :
    ({ u with tokens := n } : Usage).metricValue m = u.metricValue m ↔
      (m = .tokens → n = u.tokens) := by
  cases m with
  | costUsd => exact ⟨fun _ h => (nomatch h), fun _ => rfl⟩
  | calls => exact ⟨fun _ h => (nomatch h), fun _ => rfl⟩
  | tokens =>
    simp only [Usage.metricValue, forall_const]
    exact Int.cast_inj

/-- Measured apart or together, the rows give a rule the same figures exactly when the clamp finds
nothing to clamp, or the rule does not compare tokens. -/
theorem figuresOf_clamped_iff (rule : LimitRule) (t : Time) {u : Usage} {rows : List EventRow}
    (htokens : u.tokens = (tokenSums rows).sum) (hcols : GroupTotalsFit rows)
    (h : InI64 (tokenSums rows).sum) :
    figuresOf rule t
        { u with tokens := wrapI64 ((tokenSums rows).sum + clampLoss rows) } =
      figuresOf rule t u ↔ (rule.metric = .tokens → ColumnsNonneg rows) := by
  rw [figuresOf_eq_iff, metricValue_tokens_iff, htokens]
  refine imp_congr_right ?_
  intro _
  exact clamped_eq_iff hcols h

theorem tokens_sum_contribution (rows : List EventRow) :
    ((rows.map EventRow.contribution).sum).tokens = (tokenSums rows).sum :=
  congrArg Usage.tokens (sum_contribution rows)

section Step

variable (rows : List EventRow) (rule : LimitRule) (id : String) (t : Time)

/-- The condition of a step on SQLite. A scope of a canonical family is measured by one fold on
both sides. -/
def SqliteStepExact : Prop :=
  foldsFamily rule.scope = true ∨ SqliteExact rule.metric
    ((rowsBefore t rows).filter (windowHit rule.projectId (rule.window.since t) rule.scope))

/-- The condition of a step on Postgres, where its rows can be selected and their marks read. -/
def PostgresStepExact : Prop :=
  foldsFamily rule.scope = true ∨
    (PgWindowReadable (rowsBefore t rows) rule.projectId (rule.window.since t) rule.scope →
      PgExact rule.metric
        (pgHits (rowsBefore t rows) rule.projectId (rule.window.since t) rule.scope))

/-- A step, on the rows received before its instant. -/
theorem sampler_eq {reads : UsageReads} (hreads : reads.Bounded) :
    sampler reads rows rule.projectId rule.scope (rule.window.since t) t =
      Preview.windowUsage reads (rowsBefore t rows) rule.projectId (rule.window.since t) none rule.scope :=
  windowUsage_rowsBefore hreads rows _ (rule.window.since_le t) _

/-- For a scope of a canonical family the two measurements are one. -/
theorem windowUsage_of_family {reads : UsageReads}
    (hreads : ∀ rows project since s, s.foldsCanonicalFamily = true →
      reads.usageSinceScoped rows project since s =
        (reads.rollup rows (foldQuery project since none)).map (foldScope · s))
    (h : foldsFamily rule.scope = true) :
    Preview.windowUsage reads rows rule.projectId (rule.window.since t) none rule.scope =
      liveUsage reads rows rule t := by
  unfold Preview.windowUsage liveUsage
  cases hscope : rule.scope with
  | none => simp [foldsFamily, hscope] at h
  | some s =>
    have hs : s.foldsCanonicalFamily = true := by
      rw [hscope] at h
      exact h
    simp only [hs, if_true, hreads _ _ _ s hs]

/-- **When a step on SQLite is what the stored rule would have answered.** -/
theorem stepIsLive_sqlite_iff :
    StepIsLive sqliteReads rows rule id t (rowsBefore t rows) ↔ SqliteStepExact rows rule t := by
  rw [stepIsLive_iff, sampler_eq rows rule t sqliteReads_bounded]
  unfold SqliteStepExact
  cases hfold : foldsFamily rule.scope with
  | true =>
    have hsame : Preview.windowUsage sqliteReads (rowsBefore t rows) rule.projectId
        (rule.window.since t) none rule.scope = liveUsage sqliteReads (rowsBefore t rows) rule t :=
      windowUsage_of_family (rowsBefore t rows) rule t (fun _ _ _ s hs => if_pos hs) hfold
    rw [hsame]
    simp
  | false =>
    simp only [Bool.false_eq_true, false_or]
    rw [liveUsage_sqlite hfold, Traverse.toOption_map_eq_iff (windowUsage_sqlite_eq_ok_iff hfold)
      (usageCols_eq_ok_iff _)]
    constructor
    · intro h
      refine ⟨h.1, ?_⟩
      intro hsums
      have hfits : InI64 (tokenSums _).sum := (h.1.1 hsums).inI64_tokens
      exact (figuresOf_clamped_iff rule t (tokens_sum_contribution _) hsums.groupTotalsFit
        hfits).1 (h.2 hsums)
    · intro h
      refine ⟨h.readable, ?_⟩
      intro hsums
      have hfits : InI64 (tokenSums _).sum := (h.readable.1 hsums).inI64_tokens
      exact (figuresOf_clamped_iff rule t (tokens_sum_contribution _) hsums.groupTotalsFit
        hfits).2 (h.columns hsums)

/-- **When a step on Postgres is what the stored rule would have answered.** -/
theorem stepIsLive_postgres_iff :
    StepIsLive postgresReads rows rule id t (rowsBefore t rows) ↔ PostgresStepExact rows rule t := by
  rw [stepIsLive_iff, sampler_eq rows rule t postgresReads_bounded]
  unfold PostgresStepExact
  cases hfold : foldsFamily rule.scope with
  | true =>
    have hsame : Preview.windowUsage postgresReads (rowsBefore t rows) rule.projectId
        (rule.window.since t) none rule.scope =
          liveUsage postgresReads (rowsBefore t rows) rule t :=
      windowUsage_of_family (rowsBefore t rows) rule t (fun _ _ _ s hs => if_pos hs) hfold
    rw [hsame]
    simp
  | false =>
    simp only [Bool.false_eq_true, false_or]
    rw [Traverse.toOption_map_eq_iff (windowUsage_postgres_eq_ok_iff hfold)
      (liveUsage_postgres_eq_ok_iff hfold t)]
    constructor
    · intro h hreadable
      refine ⟨?_, ?_⟩
      · have hboth := h.1
        simpa [hreadable] using hboth
      · intro hsums
        have hfits := (h.1.1 ⟨hreadable, hsums⟩).2.2
        exact (figuresOf_clamped_iff rule t (tokens_sum_contribution _) hsums hfits).1
          (h.2 ⟨hreadable, hsums⟩)
    · intro h
      refine ⟨?_, ?_⟩
      · exact and_congr_right fun hreadable => (h hreadable).readable
      · intro hboth
        rcases hboth with ⟨hreadable, hsums⟩
        have hfits := ((h hreadable).readable.1 hsums).2
        exact (figuresOf_clamped_iff rule t (tokens_sum_contribution _) hsums hfits).2
          ((h hreadable).columns hsums)

end Step

/-! ## The whole replay -/

section Now

variable {rows : List EventRow} {project : String} {since now : Time}

/-- Where nothing was received at or after an instant, a window has the rows received before it. -/
theorem filter_inWindow_rowsBefore
    (hnow : ∀ r ∈ rows, r.projectId = project → r.windowTs < now) {p : EventRow → Bool}
    (hp : ∀ r, p r = true → inWindow project since r = true) :
    rows.filter p = (rowsBefore now rows).filter p := by
  refine filter_rowsBefore ?_
  intro r hr
  cases hpr : p r with
  | false => rfl
  | true =>
    have hwin := hp r hpr
    unfold inWindow at hwin
    simp only [Bool.and_eq_true, beq_iff_eq] at hwin
    rw [decide_eq_true (hnow r hr hwin.1)]
    rfl

theorem select_inWindow_rowsBefore
    (hnow : ∀ r ∈ rows, r.projectId = project → r.windowTs < now)
    {p : EventRow → Except PgError Bool}
    (hp : ∀ r, inWindow project since r = false → p r = .ok false) :
    Traverse.select p rows = Traverse.select p (rowsBefore now rows) := by
  refine select_rowsBefore ?_
  intro r hr
  by_cases ht : r.windowTs < now
  · rw [if_pos ht]
  · rw [if_neg ht]
    refine hp r ?_
    unfold inWindow
    rw [Bool.and_eq_false_iff]
    refine .inl (beq_eq_false_iff_ne.2 ?_)
    intro hproject
    exact ht (hnow r hr hproject)

theorem usageSinceScoped_rowsBefore
    (hnow : ∀ r ∈ rows, r.projectId = project → r.windowTs < now) (s : LimitScope) :
    usageSinceScoped rows project since s = usageSinceScoped (rowsBefore now rows) project since s := by
  have hexact : rows.filter (fun r => inWindow project since r && scopeExpr s r == .text s.value) =
      (rowsBefore now rows).filter fun r =>
        inWindow project since r && scopeExpr s r == .text s.value :=
    filter_inWindow_rowsBefore hnow fun r hr => (Bool.and_eq_true_iff.1 hr).1
  have hfold : rollup rows (foldQuery project since none) =
      rollup (rowsBefore now rows) (foldQuery project since none) := by
    refine rollup_congr rfl rfl rfl (@filter_inWindow_rowsBefore _ _ since _ hnow _ ?_)
    intro r hr
    unfold RollupQuery.selects at hr
    simp only [Bool.and_eq_true] at hr
    exact Bool.and_eq_true_iff.2 ⟨hr.1.1.1.1, hr.1.1.1.2⟩
  unfold usageSinceScoped usageForScope usageSinceExact
  rw [hfold, hexact]

theorem Postgres.usageSinceScoped_rowsBefore
    (hnow : ∀ r ∈ rows, r.projectId = project → r.windowTs < now) (s : LimitScope) :
    Postgres.usageSinceScoped rows project since s =
      Postgres.usageSinceScoped (rowsBefore now rows) project since s := by
  have hexact : Traverse.select (scopeHit project since s) rows =
      Traverse.select (scopeHit project since s) (rowsBefore now rows) := by
    refine @select_inWindow_rowsBefore _ _ since _ hnow _ ?_
    intro r hr
    unfold scopeHit
    rw [hr, if_neg Bool.false_ne_true]
  have hfold : Postgres.rollup rows (foldQuery project since none) =
      Postgres.rollup (rowsBefore now rows) (foldQuery project since none) := by
    refine Postgres.rollup_congr rfl rfl rfl (@select_inWindow_rowsBefore _ _ since _ hnow _ ?_)
    intro r hr
    have hcols : selects (foldQuery project since none) r =
        if inWindow project since r then .ok true else .ok false := by
      simp only [selects, foldQuery, timeExpr, Option.all_some, Option.all_none, Bool.not_false,
        Bool.true_or, Bool.and_true, filterHit]
      rfl
    rw [hcols, hr, if_neg Bool.false_ne_true]
  unfold Postgres.usageSinceScoped Postgres.usageForScope Postgres.usageSinceExact selectScoped
  rw [hfold, hexact]

/-- What the stored rule answers at `now`, where nothing was received at or after it. -/
theorem liveStatus_sqlite_rowsBefore {rule : LimitRule}
    (hnow : ∀ r ∈ rows, r.projectId = rule.projectId → r.windowTs < now) :
    liveStatus sqliteReads rows rule now = liveStatus sqliteReads (rowsBefore now rows) rule now := by
  have hproject : usageSince rows rule.projectId (rule.window.since now) =
      usageSince (rowsBefore now rows) rule.projectId (rule.window.since now) :=
    congrArg usageCols (filter_inWindow_rowsBefore hnow fun _ hr => hr)
  have hscoped := @usageSinceScoped_rowsBefore _ _ (rule.window.since now) _ hnow
  unfold liveStatus liveUsage sqliteReads
  simp only [hproject, hscoped]

theorem liveStatus_postgres_rowsBefore {rule : LimitRule}
    (hnow : ∀ r ∈ rows, r.projectId = rule.projectId → r.windowTs < now) :
    liveStatus postgresReads rows rule now =
      liveStatus postgresReads (rowsBefore now rows) rule now := by
  have hproject : Postgres.usageSince rows rule.projectId (rule.window.since now) =
      Postgres.usageSince (rowsBefore now rows) rule.projectId (rule.window.since now) := by
    have hrows : rows.filter (inWindow rule.projectId (rule.window.since now)) =
        (rowsBefore now rows).filter (inWindow rule.projectId (rule.window.since now)) :=
      filter_inWindow_rowsBefore hnow fun _ hr => hr
    unfold Postgres.usageSince
    rw [hrows]
  have hscoped := @Postgres.usageSinceScoped_rowsBefore _ _ (rule.window.since now) _ hnow
  unfold liveStatus liveUsage postgresReads
  simp only [hproject, hscoped]

end Now

/-- A replay is live when each of its steps is. -/
theorem previewIsLive_iff {reads : UsageReads} {rows : List EventRow} {rule : LimitRule}
    {id : String} {earlier : List Time} {now : Time}
    (hnow : liveStatus reads rows { rule with id := id } now =
      liveStatus reads (rowsBefore now rows) { rule with id := id } now) :
    PreviewIsLive reads rows rule id earlier now ↔
      ∀ t ∈ earlier ++ [now], StepIsLive reads rows rule id t (rowsBefore t rows) := by
  have hlast : StepIsLive reads rows rule id now rows ↔
      StepIsLive reads rows rule id now (rowsBefore now rows) := by
    unfold StepIsLive
    rw [hnow]
  rw [List.forall_mem_append, List.forall_mem_singleton]
  constructor
  · intro h
    exact ⟨h.earlier, hlast.1 h.last⟩
  · intro h
    exact ⟨timeline_previewLimit reads rows rule _, h.1, hlast.2 h.2⟩

/-- **A previewed cap is the created cap exactly where the token columns allow it.** For every
content of the store, candidate and grid that ends at `now`, with nothing received at or after
`now`: the steps of the replay are what the stored rule would have answered exactly when each
meets the condition of its store. -/
theorem preview_isLive_iff (rows : List EventRow) (project : String) (metric : LimitMetric)
    (window : LimitWindow) (threshold : ℚ) (action : LimitAction) (warnAt : Option ℚ)
    (scope : Option LimitScope) (id : String) (earlier : List Time) (now : Time)
    (hnow : ∀ r ∈ rows, r.projectId = project → r.windowTs < now) :
    (PreviewIsLive sqliteReads rows
        (candidate project metric window threshold action warnAt scope) id earlier now ↔
      ∀ t ∈ earlier ++ [now],
        SqliteStepExact rows (candidate project metric window threshold action warnAt scope) t) ∧
    (PreviewIsLive postgresReads rows
        (candidate project metric window threshold action warnAt scope) id earlier now ↔
      ∀ t ∈ earlier ++ [now],
        PostgresStepExact rows
          (candidate project metric window threshold action warnAt scope) t) := by
  constructor
  · rw [previewIsLive_iff (liveStatus_sqlite_rowsBefore hnow)]
    refine forall₂_congr ?_
    intro t _
    exact stepIsLive_sqlite_iff rows _ id t
  · rw [previewIsLive_iff (liveStatus_postgres_rowsBefore hnow)]
    refine forall₂_congr ?_
    intro t _
    exact stepIsLive_postgres_iff rows _ id t

/-- A call of `2 ^ 63` input tokens. -/
def hugeInput : LlmEvent where
  id := "e1"
  projectId := "p"
  ts := 0
  receivedAt := 0
  provider := .new "openai"
  model := "gpt-4o"
  usage := { input := 9223372036854775808, output := 0 }

/-- The theorem at one call of `2 ^ 63` input tokens, for a cap on calls. -/
theorem preview_isLive_hugeInput_calls :
    PreviewIsLive sqliteReads [storedRow (1, hugeInput)]
        (candidate "p" .calls .hour 10 .block none none) "r1" [] 1 ↔
      ∀ t ∈ [] ++ [(1 : Time)], SqliteStepExact [storedRow (1, hugeInput)]
        (candidate "p" .calls .hour 10 .block none none) t :=
  (preview_isLive_iff [storedRow (1, hugeInput)] "p" .calls .hour 10 .block none none "r1" [] 1
    (by decide)).1

/-- **A cap on tokens is previewed at nothing where the created one is charged less than nothing**:
the stored count of the call is negative, the rollup clamps it and the live usage does not. -/
theorem preview_hugeInput_not_live :
    ¬ PreviewIsLive sqliteReads [storedRow (1, hugeInput)]
        (candidate "p" .tokens .hour 10 .block none none) "r1" [] 1 ∧
      ¬ PreviewIsLive postgresReads [storedRow (1, hugeInput)]
        (candidate "p" .tokens .hour 10 .block none none) "r1" [] 1 := by
  have hsqlite : ¬ StepIsLive sqliteReads [storedRow (1, hugeInput)]
      (candidate "p" .tokens .hour 10 .block none none) "r1" 1 [storedRow (1, hugeInput)] := by
    decide +kernel
  have hpostgres : ¬ StepIsLive postgresReads [storedRow (1, hugeInput)]
      (candidate "p" .tokens .hour 10 .block none none) "r1" 1 [storedRow (1, hugeInput)] := by
    decide +kernel
  exact ⟨fun h => hsqlite h.last, fun h => hpostgres h.last⟩

end LightTrack
