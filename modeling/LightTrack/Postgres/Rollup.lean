import LightTrack.Postgres.Gate

/-! # The grouped rollup on Postgres

The keys of a row are read one by one, a metadata key by casting, and every group sums
its tokens and costs the way the aggregates do.

* `rollupRow_eq_ok_iff` : when a group can be read, and as what,
* `usageForScope_eq_iff` : when the fold of a model scope over the groups is the usage
  of the rule.
-/

namespace LightTrack

namespace Postgres

/-! ## The query -/

/-- `key_expr`: one dimension's value for a row. -/
def keyExpr (k : TimeKey) (d : Dimension) (r : EventRow) : Except PgError (Option String) :=
  match d.storage with
  | .column value => .ok (value r).asText
  | .metadataKey key => memberText r key
  | .day => .ok (some (String.ofList ((fmtTs (timeExpr k r)).toList.take 10)))

/-- A filter on one dimension. -/
def filterHit (q : RollupQuery) (r : EventRow) : List (Dimension × String) → Except PgError Bool
  | [] => .ok true
  | f :: fs =>
    match keyExpr q.timeKey f.1 r with
    | .error e => .error e
    | .ok v => if v == some f.2 then filterHit q r fs else .ok false

/-- The `WHERE` clause: the columns first, then the filters. -/
def selects (q : RollupQuery) (r : EventRow) : Except PgError Bool :=
  if q.project.all (r.projectId == ·) && decide (q.since ≤ timeExpr q.timeKey r) &&
      q.until_.all (fun u => decide (timeExpr q.timeKey r < u)) &&
      (!q.unpricedOnly || r.costUsd.isNone) then filterHit q r q.filter
  else .ok false

/-- The keys of a row, before the row. -/
def keyed (q : RollupQuery) (r : EventRow) : Except PgError (List (Option String) × EventRow) :=
  (q.groupBy.mapM fun d => keyExpr q.timeKey d r).map fun keys => (keys, r)

/-- One group: its keys first, then its counts and sums. -/
def rollupRow (g : List (Option String) × List EventRow) : Except PgError RollupRow :=
  match bigint (g.2.map EventRow.inputTokens).sum with
  | .error e => .error e
  | .ok inputTokens =>
    match bigint (g.2.map EventRow.outputTokens).sum with
    | .error e => .error e
    | .ok outputTokens =>
      match g.2.mapM clientCost with
      | .error e => .error e
      | .ok client =>
        .ok
          { keys := g.1
            calls := g.2.length
            inputTokens := clampU64 inputTokens
            outputTokens := clampU64 outputTokens
            costUsd := (g.2.map fun r => r.costUsd.getD 0).sum
            unpricedCalls := (g.2.filter fun r => r.costUsd.isNone).length
            clientReportedCostUsd := client.sum
            errors := (g.2.filter fun r => decide (r.status ≠ .success)).length }

/-- The groups of a query, in no particular order. -/
def groups (q : RollupQuery) (rows : List EventRow) :
    Except PgError (List (List (Option String) × List EventRow)) :=
  match Traverse.select (selects q) rows with
  | .error e => .error e
  | .ok window => (window.mapM (keyed q)).map fun pairs =>
      (Group.groupsBy Prod.fst pairs).map fun g => (g.1, g.2.map Prod.snd)

/-- `rollup`. -/
def rollup (rows : List EventRow) (q : RollupQuery) : Except StoreError (List RollupRow) :=
  match q.invalid with
  | some why => .error (.other why)
  | none =>
    match groups q rows with
    | .error e => .error (pgerr e)
    | .ok gs => (gs.mapM rollupRow).mapError pgerr

/-- `usage_for_scope`, over this backend's rollup. -/
def usageForScope (rows : List EventRow) (project : String) (since : Time) (until_ : Option Time)
    (scope : LimitScope) : Except StoreError Usage :=
  (rollup rows (foldQuery project since until_)).map (foldScope · scope)

/-- `PgStore::usage_since_scoped`. -/
def usageSinceScoped (rows : List EventRow) (project : String) (since : Time) (scope : LimitScope) :
    Except StoreError Usage :=
  if scope.foldsCanonicalFamily then usageForScope rows project since none scope
  else usageSinceExact rows project since scope

/-! ## Reading a group -/

/-- A group reads when the clients' costs do and the totals of its token columns fit. -/
theorem rollupRow_eq_ok_iff_of_costs {g : List (Option String) × List EventRow} {readable : Prop}
    {costs : List ℚ} (hclient : ∀ xs, g.2.mapM clientCost = .ok xs ↔ readable ∧ xs = costs)
    (row : RollupRow) :
    rollupRow g = .ok row ↔
      (readable ∧ GroupTotalsFit g.2) ∧
        row = { groupRow g.1 g.2 with clientReportedCostUsd := costs.sum } := by
  unfold rollupRow GroupTotalsFit
  cases hi : bigint (g.2.map EventRow.inputTokens).sum with
  | error e =>
    have hno : ¬ InI64 (g.2.map EventRow.inputTokens).sum := by
      intro hfit
      rw [(bigint_eq_ok_iff _ _).2 ⟨hfit, rfl⟩] at hi
      cases hi
    simp [hno]
  | ok inputTokens =>
    rcases (bigint_eq_ok_iff _ _).1 hi with ⟨hin, rfl⟩
    simp only
    cases ho : bigint (g.2.map EventRow.outputTokens).sum with
    | error e =>
      have hno : ¬ InI64 (g.2.map EventRow.outputTokens).sum := by
        intro hfit
        rw [(bigint_eq_ok_iff _ _).2 ⟨hfit, rfl⟩] at ho
        cases ho
      simp [hno]
    | ok outputTokens =>
      -- both totals fit: what is left is the clients' costs
      rcases (bigint_eq_ok_iff _ _).1 ho with ⟨hout, rfl⟩
      simp only
      cases hc : g.2.mapM clientCost with
      | error e =>
        have hno : ¬ readable := by
          intro hall
          rw [(hclient _).2 ⟨hall, rfl⟩] at hc
          cases hc
        simp [hno]
      | ok client =>
        rcases (hclient _).1 hc with ⟨hall, rfl⟩
        simp only [Except.ok.injEq]
        constructor
        · intro heq
          exact ⟨⟨hall, hin, hout⟩, heq.symm⟩
        · intro hrow
          exact hrow.2.symm

/-- **A group reads exactly when its rows can be cast and its totals fit**, and then as its own
row. -/
theorem rollupRow_eq_ok_iff {g : List (Option String) × List EventRow}
    (h : ∀ r ∈ g.2, r.Written) (row : RollupRow) :
    rollupRow g = .ok row ↔
      ((∀ r ∈ g.2, r.Castable) ∧ GroupTotalsFit g.2) ∧ row = groupRow g.1 g.2 :=
  rollupRow_eq_ok_iff_of_costs (fun xs => Traverse.mapM_eq_map_iff_of_mem (P := EventRow.Castable)
    (g := fun r => if r.isClientCost then r.costUsd.getD 0 else 0)
    (fun r hr x => clientCost_eq_ok_iff (h r hr) x) (m := xs)) row

/-! ## The fold of a model scope -/

/-- The groups of the fold query. -/
def modelGroups (rows : List EventRow) (project : String) (since : Time) :
    List (List (Option String) × List EventRow) :=
  Group.groupsBy (fun r => [some r.provider, some r.model]) (rows.filter (inWindow project since))

/-- A key as SQLite returns it. -/
def sqlText : Option String → SqlValue
  | some t => .text t
  | none => .null

theorem asText_sqlText (o : Option String) : (sqlText o).asText = o := by
  cases o <;> rfl

/-- They are the groups SQLite forms. -/
theorem modelGroups_eq (rows : List EventRow) (project : String) (since : Time) :
    LightTrack.modelGroups rows project since =
      (modelGroups rows project since).map fun g => (g.1.map sqlText, g.2) := by
  have hinj : Function.Injective (List.map sqlText) := by
    apply List.map_injective_iff.2
    intro o o' h
    rw [← asText_sqlText o, h, asText_sqlText]
  exact Group.groupsBy_comp hinj (fun r : EventRow => [some r.provider, some r.model]) _

theorem map_modelGroups (rows : List EventRow) (project : String) (since : Time) :
    (LightTrack.modelGroups rows project since).map readGroup =
      (modelGroups rows project since).map fun g => groupRow g.1 g.2 := by
  rw [modelGroups_eq, List.map_map]
  refine List.map_congr_left ?_
  intro g _
  have htext : (g.1.map sqlText).map SqlValue.asText = g.1 := by
    rw [List.map_map]
    exact (List.map_congr_left fun o _ => asText_sqlText o).trans (List.map_id _)
  simp only [Function.comp_apply, readGroup, htext]

theorem groups_foldQuery (rows : List EventRow) (project : String) (since : Time) :
    groups (foldQuery project since none) rows = .ok (modelGroups rows project since) := by
  have hsel : Traverse.select (selects (foldQuery project since none)) rows =
      .ok (rows.filter (inWindow project since)) := by
    refine (Traverse.select_eq_ok_iff (P := fun _ => True) ?_).2 ⟨fun _ _ => trivial, rfl⟩
    intro r _ b
    rw [true_and]
    simp only [selects, foldQuery, timeExpr, Option.all_some, Option.all_none, Bool.not_false,
      Bool.true_or, Bool.and_true, filterHit]
    change (if inWindow project since r then _ else _) = _ ↔ _
    cases inWindow project since r <;> simp [eq_comm]
  have hkeys : (rows.filter (inWindow project since)).mapM (keyed (foldQuery project since none)) =
      .ok ((rows.filter (inWindow project since)).map fun r =>
        ([some r.provider, some r.model], r)) := by
    refine (Traverse.mapM_eq_map_iff (P := fun _ => True) ?_).2 ⟨fun _ _ => trivial, rfl⟩
    intro r b
    rw [true_and]
    simp [keyed, foldQuery, keyExpr, Dimension.storage, SqlValue.asText, Except.map, pure,
      Except.pure, bind, Except.bind, eq_comm]
  unfold groups modelGroups
  rw [hsel]
  simp only [hkeys, Except.map]
  rw [Group.groupsBy_graph]

/-- **What the fold reads**: it succeeds exactly when every row of the window can be cast and the
totals of every group fit, also of the groups outside the scope. -/
theorem usageForScope_eq_ok_iff {rows : List EventRow} (h : ∀ r ∈ rows, r.Written)
    (project : String) (since : Time) (s : LimitScope) (u : Usage) :
    usageForScope rows project since none s = .ok u ↔
      (∀ g ∈ modelGroups rows project since, (∀ r ∈ g.2, r.Castable) ∧ GroupTotalsFit g.2) ∧
        u = foldScope ((LightTrack.modelGroups rows project since).map readGroup) s := by
  have hvalid : (foldQuery project since none).invalid = none := by
    simp [RollupQuery.invalid, foldQuery, MAX_GROUP_BY, List.zipIdx]
  have hgroup : ∀ g ∈ modelGroups rows project since, ∀ r ∈ g.2, r.Written := by
    intro g hg r hr
    rw [Group.mem_groupsBy hg] at hr
    exact h r (List.mem_filter.1 (List.mem_filter.1 hr).1).1
  have hread := fun out => Traverse.mapM_eq_map_iff_of_mem
    (fun g hg row => rollupRow_eq_ok_iff (hgroup g hg) row) (m := out)
  unfold usageForScope rollup
  rw [hvalid, groups_foldQuery, map_modelGroups, Traverse.map_eq_ok_iff]
  simp only [Traverse.mapError_eq_ok_iff, hread]
  constructor
  · rintro ⟨out, ⟨hall, rfl⟩, rfl⟩
    exact ⟨hall, rfl⟩
  · rintro ⟨hall, rfl⟩
    exact ⟨_, ⟨hall, rfl⟩, rfl⟩

end Postgres

/-- The condition under which the Postgres ledger of a model scope is exact: every row of the
window can be cast, the totals of every group fit, the charged tokens add up to an `i64`, and the
clamp adds nothing modulo `2 ^ 64`. -/
structure FoldExact (evs : List (ℕ × LlmEvent)) (project : String) (since : Time) (s : LimitScope) :
    Prop where
  groups : ∀ g ∈ Postgres.modelGroups (evs.map storedRow) project since,
    (∀ r ∈ g.2, r.Castable) ∧ GroupTotalsFit g.2
  tokens : InI64 (scopedUsage evs project since s).tokens
  clamp : 2 * i64Bound ∣ clampLossOf (evs.map storedRow) project since s

namespace Postgres

/-- **The fold is the usage of the rule** exactly when the ledger is exact. -/
theorem usageForScope_eq_iff {s : LimitScope} (hs : s.foldsCanonicalFamily = true)
    {evs : List (ℕ × LlmEvent)} (hw : ∀ p ∈ evs, (storedRow p).Written) (project : String)
    (since : Time) :
    usageForScope (evs.map storedRow) project since none s =
        .ok (scopedUsage evs project since s) ↔ FoldExact evs project since s := by
  have hrows : ∀ r ∈ evs.map storedRow, r.Written := by
    intro r hr
    rcases List.mem_map.1 hr with ⟨p, hp, rfl⟩
    exact hw p hp
  -- the groups of the two dialects hold the same rows
  have hsame : (∀ g ∈ modelGroups (evs.map storedRow) project since, GroupTotalsFit g.2) →
      ∀ g ∈ LightTrack.modelGroups (evs.map storedRow) project since, GroupTotalsFit g.2 := by
    intro hall
    rw [modelGroups_eq, List.forall_mem_map]
    exact hall
  rw [usageForScope_eq_ok_iff hrows]
  constructor
  · rintro ⟨hall, hfold⟩
    rcases (scopedUsage_eq_fold_iff hs (hsame fun g hg => (hall g hg).2)).1 hfold with
      ⟨htokens, hclamp⟩
    exact ⟨hall, htokens, hclamp⟩
  · intro hexact
    exact ⟨hexact.groups, (scopedUsage_eq_fold_iff hs (hsame fun g hg =>
      (hexact.groups g hg).2)).2 ⟨hexact.tokens, hexact.clamp⟩⟩

end Postgres

end LightTrack
