import LightTrack.Postgres.Charged
import LightTrack.Postgres.Store
import LightTrack.Store.Breakdown

/-! # Who is spending, on both backends

Postgres measures the breakdown on the client's clock and the usage it breaks down on
the time of arrival.

* `Postgres.explains_iff` : when the Postgres breakdown explains the usage,
* `breakdowns_explain_iff` : when those of both backends do.
-/

namespace LightTrack

namespace Postgres

/-! ## Reading the breakdown -/

/-- The value of a row's dimension, where it can be read. -/
def dimension (s : LimitScope) (r : EventRow) : Option String :=
  match s with
  | .provider _ => some r.provider
  | .model _ => some r.model
  | .name _ => r.name
  | .apiKey _ => r.member "api_key_id"
  | .customer _ => r.member "customer_id"

theorem scopeExpr_eq_ok_iff {r : EventRow} (h : r.Written) (s : LimitScope) (v : Option String) :
    scopeExpr s r = .ok v ↔ (castsMetadata s = true → r.Castable) ∧ v = dimension s r := by
  cases s with
  | provider w => simp [scopeExpr, castsMetadata, dimension, eq_comm]
  | model w => simp [scopeExpr, castsMetadata, dimension, eq_comm]
  | name w => simp [scopeExpr, castsMetadata, dimension, eq_comm]
  | apiKey w =>
    refine (memberText_eq_ok_iff h "api_key_id" v).trans ?_
    simp [castsMetadata, dimension]
  | customer w =>
    refine (memberText_eq_ok_iff h "customer_id" v).trans ?_
    simp [castsMetadata, dimension]

/-- The row of a group. -/
def scopeRow (g : Option String × List EventRow) : ScopeUsage where
  value := g.1
  usage := (g.2.map EventRow.contribution).sum

theorem scopeGroup_eq_ok_iff {g : Option String × List EventRow} (h : ∀ r ∈ g.2, r.Written)
    (row : ScopeUsage) : scopeGroup g = .ok row ↔ PgFits g.2 ∧ row = scopeRow g := by
  unfold scopeGroup
  rw [Traverse.map_eq_ok_iff]
  constructor
  · rintro ⟨u, hu, rfl⟩
    rcases (usageCols_eq_ok_iff h u).1 hu with ⟨hfits, rfl⟩
    exact ⟨hfits, rfl⟩
  · rintro ⟨hfits, rfl⟩
    exact ⟨_, (usageCols_eq_ok_iff h _).2 ⟨hfits, rfl⟩, rfl⟩

/-- `project_id = $1 AND ts >= $2`. -/
def sentSince (project : String) (since : Time) (r : EventRow) : Bool :=
  r.projectId == project && decide (since ≤ r.ts)

/-- The groups of the breakdown. -/
def scopeGroups (rows : List EventRow) (project : String) (since : Time) (s : LimitScope) :
    List (Option String × List EventRow) :=
  Group.groupsBy (dimension s) (rows.filter (sentSince project since))

theorem mem_of_scopeGroups {rows : List EventRow} {project : String} {since : Time}
    {s : LimitScope} {g : Option String × List EventRow}
    (hg : g ∈ scopeGroups rows project since s) {r : EventRow} (hr : r ∈ g.2) : r ∈ rows := by
  rw [Group.mem_groupsBy hg] at hr
  exact (List.mem_filter.1 (List.mem_filter.1 hr).1).1

/-- **When the breakdown can be read**: every group fits. -/
theorem usageByScope_eq_ok_iff {rows : List EventRow} (h : ∀ r ∈ rows, r.Written)
    (project : String) (since : Time) (s : LimitScope) (gs : List ScopeUsage) :
    usageByScope rows project since s = .ok gs ↔
      (∀ g ∈ scopeGroups rows project since s, PgFits g.2) ∧
        gs = ((scopeGroups rows project since s).map scopeRow).mergeSort
          fun a b => decide (b.usage.costUsd ≤ a.usage.costUsd) := by
  have hwindow : ∀ r ∈ rows.filter (sentSince project since), r.Written :=
    fun r hr => h r (List.mem_filter.1 hr).1
  have hkeyed := fun pairs => Traverse.mapM_eq_map_iff_of_mem (f := scopeKeyed s)
    (P := fun r => castsMetadata s = true → r.Castable) (g := fun r => (dimension s r, r))
    (l := rows.filter (sentSince project since)) (m := pairs) fun r hr b => by
      unfold scopeKeyed
      rw [Traverse.map_eq_ok_iff]
      constructor
      · rintro ⟨v, hv, rfl⟩
        rcases (scopeExpr_eq_ok_iff (hwindow r hr) s v).1 hv with ⟨hcast, rfl⟩
        exact ⟨hcast, rfl⟩
      · rintro ⟨hcast, rfl⟩
        exact ⟨_, (scopeExpr_eq_ok_iff (hwindow r hr) s _).2 ⟨hcast, rfl⟩, rfl⟩
  have hread := fun out => Traverse.mapM_eq_map_iff_of_mem
    (l := scopeGroups rows project since s) (m := out)
    fun g hg row => scopeGroup_eq_ok_iff (fun r hr => h r (mem_of_scopeGroups hg hr)) row
  have hsent : (rows.filter fun r => r.projectId == project && decide (since ≤ r.ts)) =
      rows.filter (sentSince project since) := rfl
  unfold usageByScope
  rw [hsent]
  cases hpairs : (rows.filter (sentSince project since)).mapM (scopeKeyed s) with
  | error e =>
    -- a key that cannot be cast is one of a group that does not fit
    have hno : ¬ ∀ g ∈ scopeGroups rows project since s, PgFits g.2 := by
      intro hall
      have hcast : ∀ r ∈ rows.filter (sentSince project since),
          castsMetadata s = true → r.Castable := by
        intro r hr _
        rcases Group.exists_group (dimension s) hr with ⟨g, hg, hmem⟩
        exact (hall g hg).castable r hmem
      rw [(hkeyed _).2 ⟨hcast, rfl⟩] at hpairs
      cases hpairs
    constructor
    · intro hcon
      cases hcon
    · intro hcon
      exact absurd hcon.1 hno
  | ok pairs =>
    -- every key reads, so the groups are those of the keys
    rcases (hkeyed pairs).1 hpairs with ⟨-, rfl⟩
    simp only [Traverse.mapError_eq_ok_iff, Traverse.map_eq_ok_iff, Group.groupsBy_graph]
    constructor
    · rintro ⟨out, hout, rfl⟩
      rcases (hread out).1 hout with ⟨hall, rfl⟩
      exact ⟨hall, rfl⟩
    · rintro ⟨hall, rfl⟩
      exact ⟨_, (hread _).2 ⟨hall, rfl⟩, rfl⟩

/-! ## When it explains the usage -/

/-- Rows the client dates inside the window that arrived before it. -/
def early (project : String) (since : Time) (r : EventRow) : Bool :=
  sentSince project since r && !inWindow project since r

/-- Rows that arrived inside the window and are dated before it. -/
def late (project : String) (since : Time) (r : EventRow) : Bool :=
  inWindow project since r && !sentSince project since r

end Postgres

/-- The condition under which the Postgres breakdown explains the usage: it can be read, and the
rows only it counts weigh as much as those it misses, under every value it names. -/
structure PgExplained (rows : List EventRow) (project : String) (since : Time) (s : LimitScope) :
    Prop where
  groups : ∀ g ∈ Postgres.scopeGroups rows project since s, PgFits g.2
  total : PgFits (rows.filter (inWindow project since))
  balance : ((rows.filter (Postgres.early project since)).map EventRow.contribution).sum =
    ((rows.filter (Postgres.late project since)).map EventRow.contribution).sum
  values : s.foldsCanonicalFamily = false →
    ∀ g ∈ Postgres.scopeGroups rows project since s, g.1.isSome = true →
      ((rows.filter fun r => Postgres.early project since r &&
          decide (Postgres.dimension s r = g.1)).map EventRow.contribution).sum =
        ((rows.filter fun r => Postgres.late project since r &&
          decide (Postgres.dimension s r = g.1)).map EventRow.contribution).sum

namespace Postgres

theorem sum_tokens (rows : List EventRow) :
    ((rows.map EventRow.contribution).sum).tokens = (tokenSums rows).sum := by
  rw [sum_contribution]

/-- A query scoped to a value reads the rows in the window whose dimension is the value. -/
theorem hits_withValue {s : LimitScope} (hs : s.foldsCanonicalFamily = false)
    (rows : List EventRow) (project : String) (since : Time) (v : String) :
    hits rows project since (s.withValue v) =
      rows.filter fun r => inWindow project since r && decide (dimension s r = some v) := by
  unfold hits
  apply List.filter_congr
  intro r _
  have hvalue : equalsValue (s.withValue v) r = true ↔ dimension s r = some v := by
    cases s with
    | provider w => simp [LimitScope.withValue, equalsValue, dimension]
    | model w => cases hs
    | name w => exact beq_iff_eq
    | apiKey w => exact beq_iff_eq
    | customer w => exact beq_iff_eq
  rw [Bool.eq_iff_iff, Bool.and_eq_true, Bool.and_eq_true, hvalue, decide_eq_true_eq]

/-- Two selections agree under a value when what only the one has balances what only the other
has. -/
theorem balance_iff (project : String) (since : Time) (d : EventRow → Bool)
    (rows : List EventRow) :
    ((rows.filter fun r => sentSince project since r && d r).map EventRow.contribution).sum =
        ((rows.filter fun r => inWindow project since r && d r).map EventRow.contribution).sum ↔
      ((rows.filter fun r => early project since r && d r).map EventRow.contribution).sum =
        ((rows.filter fun r => late project since r && d r).map EventRow.contribution).sum := by
  rw [Group.sum_filter_eq_iff]
  have hearly : (fun r => (sentSince project since r && d r) && !(inWindow project since r && d r)) =
      fun r => early project since r && d r := by
    funext r
    unfold early
    cases sentSince project since r <;> cases inWindow project since r <;> cases d r <;> rfl
  have hlate : (fun r => (inWindow project since r && d r) && !(sentSince project since r && d r)) =
      fun r => late project since r && d r := by
    funext r
    unfold late
    cases sentSince project since r <;> cases inWindow project since r <;> cases d r <;> rfl
  rw [hearly, hlate]

theorem scopeGroup_rows {rows : List EventRow} {project : String} {since : Time} {s : LimitScope}
    {g : Option String × List EventRow} (hg : g ∈ scopeGroups rows project since s) :
    g.2 = rows.filter fun r => sentSince project since r && decide (dimension s r = g.1) := by
  rw [Group.mem_groupsBy hg, List.filter_filter]
  apply List.filter_congr
  intro r _
  exact Bool.and_comm _ _

/-- A scope that folds no family of names asks one query. -/
theorem usageSinceScoped_eq_ok_iff {rows : List EventRow} {project : String} {since : Time}
    {s : LimitScope} (hs : s.foldsCanonicalFamily = false) (v : String) (u : Usage) :
    usageSinceScoped rows project since (s.withValue v) = .ok u ↔
      selectScoped rows project since (s.withValue v) = .ok u := by
  unfold usageSinceScoped
  rw [LimitScope.foldsCanonicalFamily_withValue, hs, if_neg Bool.false_ne_true]
  exact Traverse.mapError_eq_ok_iff

/-- **When the Postgres breakdown explains the usage.** -/
theorem explains_iff {rows : List EventRow} (h : ∀ r ∈ rows, r.Written) (project : String)
    (since : Time) (s : LimitScope) :
    Explains s (usageByScope rows project since s) (usageSince rows project since)
        (usageSinceScoped rows project since) ↔
      PgExplained rows project since s := by
  have hwindow : ∀ r ∈ rows.filter (inWindow project since), r.Written :=
    fun r hr => h r (List.mem_filter.1 hr).1
  have hkeys : ((scopeGroups rows project since s).map scopeRow).map ScopeUsage.value =
      (scopeGroups rows project since s).map Prod.fst := by
    rw [List.map_map]
    rfl
  have hsum : (((scopeGroups rows project since s).map scopeRow).map ScopeUsage.usage).sum =
      ((rows.filter (sentSince project since)).map EventRow.contribution).sum := by
    rw [List.map_map]
    exact Group.sum_groupsBy (dimension s) EventRow.contribution _
  have htotal : ∀ u, usageSince rows project since = .ok u ↔
      PgFits (rows.filter (inWindow project since)) ∧
        u = ((rows.filter (inWindow project since)).map EventRow.contribution).sum := by
    intro u
    exact Traverse.mapError_eq_ok_iff.trans (usageCols_eq_ok_iff hwindow u)
  have hall : (rows.filter fun r => sentSince project since r && true) =
      rows.filter (sentSince project since) := List.filter_congr fun r _ => Bool.and_true _
  have hbalance := balance_iff project since (fun _ => true) rows
  simp only [Bool.and_true] at hbalance
  rw [explains_iff_of_perm (List.mergeSort_perm _ _)
    (usageByScope_eq_ok_iff h project since s), hsum, hkeys]
  constructor
  · rintro ⟨hread, -, hsame, hvalues⟩
    rcases (htotal _).1 hsame with ⟨hfits, hsums⟩
    refine ⟨hread, hfits, hbalance.1 hsums, ?_⟩
    intro hs g hg hsome
    rcases Option.isSome_iff_exists.1 hsome with ⟨v, hv⟩
    have hrow := (usageSinceScoped_eq_ok_iff hs v _).1 (hvalues hs _ (List.mem_map_of_mem hg) v hv)
    rcases (selectScoped_eq_ok_iff h project since _ _).1 hrow with ⟨-, husage⟩
    rw [hits_withValue hs, ← hv] at husage
    refine (balance_iff project since (fun r => decide (dimension s r = g.1)) rows).1 ?_
    rw [← husage, ← scopeGroup_rows hg]
    rfl
  · intro hexp
    refine ⟨hexp.groups, Group.nodup_keys _ _, (htotal _).2 ⟨hexp.total, hbalance.2 hexp.balance⟩,
      ?_⟩
    intro hs row hrow v hv
    rcases List.mem_map.1 hrow with ⟨g, hg, rfl⟩
    have hkey : g.1 = some v := hv
    have hsums := (balance_iff project since (fun r => decide (dimension s r = g.1)) rows).2
      (hexp.values hs g hg (by rw [hkey]; rfl))
    rw [← scopeGroup_rows hg] at hsums
    -- what the scoped query selects fits: in the window, and with the sum of the group
    have hin : ∀ r ∈ hits rows project since (s.withValue v),
        r ∈ rows.filter (inWindow project since) := by
      intro r hr
      rcases List.mem_filter.1 hr with ⟨hmem, hcond⟩
      exact List.mem_filter.2 ⟨hmem, (Bool.and_eq_true_iff.1 hcond).1⟩
    have husage : (scopeRow g).usage =
        ((hits rows project since (s.withValue v)).map EventRow.contribution).sum := by
      rw [hits_withValue hs, ← hkey]
      exact hsums
    have htokens := congrArg Usage.tokens husage
    unfold scopeRow at htokens
    rw [sum_tokens, sum_tokens] at htokens
    refine (usageSinceScoped_eq_ok_iff hs v _).2
      ((selectScoped_eq_ok_iff h project since _ _).2 ⟨⟨?_, ?_⟩, husage⟩)
    · intro r hr hwin _
      exact hexp.total.castable r (List.mem_filter.2 ⟨hr, hwin⟩)
    · refine ⟨fun r hr => hexp.total.castable r (hin r hr),
        fun r hr => hexp.total.tokens r (hin r hr), ?_⟩
      rw [← htokens]
      exact (hexp.groups g hg).total

end Postgres

/-! ## Both backends -/

/-- A call that arrived at 10 and is dated 0. -/
def backdatedCall : LlmEvent := { sampleEvent with id := "e0", ts := 0, receivedAt := 10 }

/-- A project that has made this call. -/
def backdatedEvents : StoredEvents where
  events := [(1, backdatedCall)]
  table := EventTable.empty.append backdatedCall rfl
  rows_eq := rfl
  written := by
    intro p hp
    rw [List.mem_singleton.1 hp]
    rfl

end LightTrack
