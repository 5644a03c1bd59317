import LightTrack.Firestore.Rollup
import LightTrack.Postgres.Charged
import LightTrack.Postgres.Store

/-! # One rollup on three backends

A dimension is a column, or a member of the metadata that each backend reads its own
way: SQLite takes texts and the JSON of arrays and objects and refuses numbers, Postgres
prints whatever is there, Firestore takes strings only.

* `sqlite_rollup_iff`, `postgres_rollup_iff` : when a query can be read, and as what,
* `mergeOn_perm` : rows merged on a prefix of their keys,
* `rollups_agree_iff` : when the three backends agree on a query and its prefixes.
-/

namespace LightTrack

namespace RollupQuery

/-! ## What a query selects -/

/-- The conditions on the columns. -/
def reaches (q : RollupQuery) (r : EventRow) : Bool :=
  q.project.all (r.projectId == ·) && decide (q.since ≤ r.ts) &&
    q.until_.all (fun u => decide (r.ts < u)) && (!q.unpricedOnly || r.costUsd.isNone)

section Window

variable (val : Dimension → EventRow → Option String)

/-- The filters, where `val` reads the dimensions. -/
def hits (q : RollupQuery) (r : EventRow) : Bool := q.filter.all fun f => val f.1 r == some f.2

/-- The rows a query selects. -/
def window (q : RollupQuery) (rows : List EventRow) : List EventRow :=
  rows.filter fun r => q.reaches r && q.hits val r

/-- The keys of a row. -/
def keysOf (q : RollupQuery) (r : EventRow) : List (Option String) := q.groupBy.map fun d => val d r

/-- The groups of a query. -/
def groupsOf (q : RollupQuery) (rows : List EventRow) :
    List (List (Option String) × List EventRow) :=
  Group.groupsBy (q.keysOf val) (q.window val rows)

end Window

/-- The query grouped by the first `k` of its dimensions. -/
def grouped (q : RollupQuery) (k : ℕ) : RollupQuery := { q with groupBy := q.groupBy.take k }

end RollupQuery

/-- A dimension as SQLite reads it. -/
def sqliteValue (d : Dimension) (r : EventRow) : Option String := (keyExpr .ts d r).asText

/-- A dimension as Postgres reads it. -/
def postgresValue (d : Dimension) (r : EventRow) : Option String :=
  match d.storage with
  | .column value => (value r).asText
  | .metadataKey key => r.member key
  | .day => some (Firestore.day r)

/-! ## SQLite -/

theorem sqlText_asText {v : SqlValue} (h : v.IsTextual) : Postgres.sqlText v.asText = v := by
  rcases h with rfl | ⟨t, rfl⟩ <;> rfl

theorem selects_eq (q : RollupQuery) (hts : q.timeKey = .ts) (r : EventRow) :
    q.selects r = (q.reaches r && q.hits sqliteValue r) := by
  have hfilter : (q.filter.all fun f => keyExpr q.timeKey f.1 r == .text f.2) =
      q.hits sqliteValue r := by
    unfold RollupQuery.hits sqliteValue
    rw [hts]
    congr 1
    funext f
    rw [Bool.eq_iff_iff, beq_iff_eq, beq_iff_eq]
    cases keyExpr .ts f.1 r <;> simp [SqlValue.asText]
  unfold RollupQuery.selects RollupQuery.reaches
  rw [hfilter, hts]
  rfl

theorem window_sqlite (q : RollupQuery) (hts : q.timeKey = .ts) (rows : List EventRow) :
    rows.filter q.selects = q.window sqliteValue rows := by
  unfold RollupQuery.window
  exact List.filter_congr fun r _ => selects_eq q hts r

section Sqlite

variable {rows : List EventRow} {q : RollupQuery}

theorem forall_keys_textual (hts : q.timeKey = .ts) :
    (∀ g ∈ q.groups rows, ∀ k ∈ g.1, k.IsTextual) ↔
      ∀ r ∈ q.window sqliteValue rows, ∀ d ∈ q.groupBy, (keyExpr .ts d r).IsTextual := by
  have hkeys : ∀ r, (∀ d ∈ q.groupBy, (keyExpr .ts d r).IsTextual) ↔
      ∀ k ∈ q.groupBy.map fun d => keyExpr q.timeKey d r, k.IsTextual := by
    intro r
    rw [List.forall_mem_map, hts]
  unfold RollupQuery.groups
  rw [Group.forall_key_iff (p := fun ks : List SqlValue => ∀ k ∈ ks, k.IsTextual),
    window_sqlite q hts]
  exact forall₂_congr fun r _ => (hkeys r).symm

/-- Where the keys are texts, the groups are those of the texts. -/
theorem groups_of_textual (hts : q.timeKey = .ts)
    (hall : ∀ r ∈ q.window sqliteValue rows, ∀ d ∈ q.groupBy, (keyExpr .ts d r).IsTextual) :
    q.groups rows = (q.groupsOf sqliteValue rows).map fun g =>
      (g.1.map Postgres.sqlText, g.2) := by
  have hinj : Function.Injective (List.map Postgres.sqlText) := by
    apply List.map_injective_iff.2
    intro o o' h
    rw [← Postgres.asText_sqlText o, h, Postgres.asText_sqlText]
  unfold RollupQuery.groups RollupQuery.groupsOf
  rw [← Group.groupsBy_comp hinj, window_sqlite q hts]
  refine Group.groupsBy_congr ?_
  intro r hr
  unfold RollupQuery.keysOf sqliteValue
  rw [List.map_map, hts]
  refine List.map_congr_left ?_
  intro d hd
  exact (sqlText_asText (hall r hr d hd)).symm

theorem groupRows_of_textual (hts : q.timeKey = .ts)
    (hall : ∀ r ∈ q.window sqliteValue rows, ∀ d ∈ q.groupBy, (keyExpr .ts d r).IsTextual) :
    (q.groups rows).map (fun g => groupRow (g.1.map SqlValue.asText) g.2) =
      (q.groupsOf sqliteValue rows).map fun g => groupRow g.1 g.2 := by
  rw [groups_of_textual hts hall, List.map_map]
  refine List.map_congr_left ?_
  intro g _
  have hkeep : (g.1.map Postgres.sqlText).map SqlValue.asText = g.1 := by
    rw [List.map_map]
    exact (List.map_congr_left fun o _ => Postgres.asText_sqlText o).trans (List.map_id _)
  simp only [Function.comp_apply, hkeep]

end Sqlite

/-- **When SQLite answers a query**: every key is a text or NULL, and the sums of every group
fit. -/
theorem sqlite_rollup_iff {rows : List EventRow} {q : RollupQuery} (hq : q.invalid = none)
    (hts : q.timeKey = .ts) (out : List RollupRow) :
    rollup rows q = .ok out ↔
      ((∀ r ∈ q.window sqliteValue rows, ∀ d ∈ q.groupBy, (keyExpr .ts d r).IsTextual) ∧
        ∀ g ∈ q.groupsOf sqliteValue rows, SumsFit g.2) ∧
        out = (q.groupsOf sqliteValue rows).map fun g => groupRow g.1 g.2 := by
  have hread := fun rs => Traverse.mapM_eq_map_iff rollupRow_eq_ok_iff (l := q.groups rows)
    (m := rs)
  have htext := @forall_keys_textual rows q hts
  have hsums : (∀ r ∈ q.window sqliteValue rows, ∀ d ∈ q.groupBy, (keyExpr .ts d r).IsTextual) →
      ((∀ g ∈ q.groups rows, SumsFit g.2) ↔ ∀ g ∈ q.groupsOf sqliteValue rows, SumsFit g.2) := by
    intro hall
    rw [groups_of_textual hts hall, List.forall_mem_map]
  unfold rollup
  rw [hq]
  simp only
  cases hm : (q.groups rows).mapM rollupRow with
  | error e =>
    -- some row is no answer: a key is no text, or a sum does not fit
    have hno : ¬ ∀ g ∈ q.groups rows, (∀ k ∈ g.1, k.IsTextual) ∧ SumsFit g.2 := by
      intro hall
      rw [(hread _).2 ⟨hall, rfl⟩] at hm
      cases hm
    constructor
    · intro hcon
      cases hcon
    · rintro ⟨⟨hall, hfit⟩, -⟩
      exact absurd (fun g hg => ⟨htext.2 hall g hg, (hsums hall).2 hfit g hg⟩) hno
  | ok rs =>
    rcases (hread rs).1 hm with ⟨hall, rfl⟩
    have htexts := htext.1 fun g hg => (hall g hg).1
    have hfits := (hsums htexts).1 fun g hg => (hall g hg).2
    rw [groupRows_of_textual hts htexts]
    simp only [Except.ok.injEq]
    constructor
    · rintro rfl
      exact ⟨⟨htexts, hfits⟩, rfl⟩
    · rintro ⟨-, rfl⟩
      rfl

/-! ## Postgres -/

/-- Whether a dimension is a member of the metadata. -/
def Dimension.inMetadata (d : Dimension) : Bool :=
  match d.storage with
  | .metadataKey _ => true
  | _ => false

/-- Whether checking the filters, from left to right, comes to a member of the metadata. -/
def castsFilter (r : EventRow) : List (Dimension × String) → Bool
  | [] => false
  | f :: fs => f.1.inMetadata || (postgresValue f.1 r == some f.2 && castsFilter r fs)

theorem keyExpr_eq_ok_iff {r : EventRow} (h : r.Written) (d : Dimension) (v : Option String) :
    Postgres.keyExpr .ts d r = .ok v ↔
      (d.inMetadata = true → r.Castable) ∧ v = postgresValue d r := by
  unfold Postgres.keyExpr Dimension.inMetadata postgresValue
  cases d.storage with
  | column value => simp [eq_comm]
  | metadataKey key =>
    refine (Postgres.memberText_eq_ok_iff h key v).trans ?_
    simp
  | day =>
    rw [Except.ok.injEq, eq_comm]
    simp [Firestore.day, timeExpr]

theorem filterHit_eq_ok_iff {q : RollupQuery} (hts : q.timeKey = .ts) {r : EventRow}
    (h : r.Written) (fs : List (Dimension × String)) (b : Bool) :
    Postgres.filterHit q r fs = .ok b ↔
      (castsFilter r fs = true → r.Castable) ∧ b = fs.all fun f => postgresValue f.1 r == some f.2 := by
  induction fs generalizing b with
  | nil => simp [Postgres.filterHit, castsFilter, eq_comm]
  | cons f fs ih =>
    have hkey := keyExpr_eq_ok_iff h f.1
    unfold Postgres.filterHit castsFilter
    rw [hts, List.all_cons]
    cases hv : Postgres.keyExpr .ts f.1 r with
    | error e =>
      have hno : ¬ (f.1.inMetadata = true → r.Castable) := by
        intro hcast
        rw [(hkey _).2 ⟨hcast, rfl⟩] at hv
        cases hv
      push Not at hno
      simp [hno.1, hno.2]
    | ok v =>
      rcases (hkey v).1 hv with ⟨hcast, rfl⟩
      simp only
      cases hhit : postgresValue f.1 r == some f.2 with
      | false =>
        rw [if_neg Bool.false_ne_true, Except.ok.injEq, Bool.false_and, Bool.or_false,
          Bool.false_and, eq_comm]
        exact ⟨fun hb => ⟨hcast, hb⟩, fun hb => hb.2⟩
      | true =>
        rw [if_pos rfl, ih, Bool.true_and, Bool.true_and, Bool.or_eq_true]
        constructor
        · rintro ⟨hrest, rfl⟩
          exact ⟨fun hor => hor.elim hcast hrest, rfl⟩
        · rintro ⟨hall, rfl⟩
          exact ⟨fun hc => hall (.inr hc), rfl⟩

theorem postgres_selects_iff {q : RollupQuery} (hts : q.timeKey = .ts) {r : EventRow}
    (h : r.Written) (b : Bool) :
    Postgres.selects q r = .ok b ↔
      (q.reaches r = true → castsFilter r q.filter = true → r.Castable) ∧
        b = (q.reaches r && q.hits postgresValue r) := by
  have hcond : (q.project.all (r.projectId == ·) && decide (q.since ≤ timeExpr q.timeKey r) &&
      q.until_.all (fun u => decide (timeExpr q.timeKey r < u)) &&
      (!q.unpricedOnly || r.costUsd.isNone)) = q.reaches r := by
    rw [hts]
    rfl
  unfold Postgres.selects
  rw [hcond]
  cases q.reaches r with
  | false =>
    rw [if_neg Bool.false_ne_true, Except.ok.injEq, Bool.false_and, eq_comm]
    exact ⟨fun hb => ⟨fun hcon => absurd hcon Bool.false_ne_true, hb⟩, fun hb => hb.2⟩
  | true =>
    rw [if_pos rfl, filterHit_eq_ok_iff hts h, Bool.true_and]
    exact ⟨fun hb => ⟨fun _ => hb.1, hb.2⟩, fun hb => ⟨hb.1 rfl, hb.2⟩⟩

theorem keyed_eq_ok_iff {q : RollupQuery} (hts : q.timeKey = .ts) {r : EventRow} (h : r.Written)
    (b : List (Option String) × EventRow) :
    Postgres.keyed q r = .ok b ↔
      (∀ d ∈ q.groupBy, d.inMetadata = true → r.Castable) ∧ b = (q.keysOf postgresValue r, r) := by
  have hkeys := fun vs => Traverse.mapM_eq_map_iff (fun d v => keyExpr_eq_ok_iff h d v)
    (l := q.groupBy) (m := vs)
  unfold Postgres.keyed
  rw [Traverse.map_eq_ok_iff, hts]
  constructor
  · rintro ⟨vs, hvs, rfl⟩
    rcases (hkeys vs).1 hvs with ⟨hcast, rfl⟩
    exact ⟨hcast, rfl⟩
  · rintro ⟨hcast, rfl⟩
    exact ⟨_, (hkeys _).2 ⟨hcast, rfl⟩, rfl⟩

/-- The pass of Postgres that reads the groups. -/
theorem postgres_groups_iff {rows : List EventRow} (h : ∀ r ∈ rows, r.Written) {q : RollupQuery}
    (hts : q.timeKey = .ts) (gs : List (List (Option String) × List EventRow)) :
    Postgres.groups q rows = .ok gs ↔
      ((∀ r ∈ rows, q.reaches r = true → castsFilter r q.filter = true → r.Castable) ∧
        ∀ r ∈ q.window postgresValue rows, ∀ d ∈ q.groupBy, d.inMetadata = true → r.Castable) ∧
        gs = q.groupsOf postgresValue rows := by
  have hselect := fun as => Traverse.select_eq_ok_iff (l := rows) (m := as)
    fun r hr b => postgres_selects_iff hts (h r hr) b
  have hkeyed := fun pairs => Traverse.mapM_eq_map_iff_of_mem (l := q.window postgresValue rows)
    (m := pairs) fun r hr b => keyed_eq_ok_iff hts (h r (List.mem_filter.1 hr).1) b
  have hsel : (rows.filter fun r => q.reaches r && q.hits postgresValue r) =
      q.window postgresValue rows := rfl
  unfold Postgres.groups
  cases hs : Traverse.select (Postgres.selects q) rows with
  | error e =>
    constructor
    · intro hcon
      cases hcon
    · rintro ⟨⟨hcast, -⟩, -⟩
      rw [(hselect _).2 ⟨hcast, rfl⟩] at hs
      cases hs
  | ok as =>
    rcases (hselect as).1 hs with ⟨hcast, rfl⟩
    simp only [hsel, Traverse.map_eq_ok_iff]
    constructor
    · rintro ⟨pairs, hpairs, rfl⟩
      rcases (hkeyed pairs).1 hpairs with ⟨hkeys, rfl⟩
      exact ⟨⟨hcast, hkeys⟩, Group.groupsBy_graph _ _⟩
    · rintro ⟨⟨-, hkeys⟩, rfl⟩
      exact ⟨_, (hkeyed _).2 ⟨hkeys, rfl⟩, (Group.groupsBy_graph _ _).symm⟩

/-- **When Postgres answers a query**: the metadata of the rows it looks into can be cast, and the
totals of every group fit. -/
theorem postgres_rollup_iff {rows : List EventRow} (h : ∀ r ∈ rows, r.Written) {q : RollupQuery}
    (hq : q.invalid = none) (hts : q.timeKey = .ts) (out : List RollupRow) :
    Postgres.rollup rows q = .ok out ↔
      ((∀ r ∈ rows, q.reaches r = true → castsFilter r q.filter = true → r.Castable) ∧
        (∀ r ∈ q.window postgresValue rows, r.Castable) ∧
        ∀ g ∈ q.groupsOf postgresValue rows, GroupTotalsFit g.2) ∧
        out = (q.groupsOf postgresValue rows).map fun g => groupRow g.1 g.2 := by
  have hgroup : ∀ g ∈ q.groupsOf postgresValue rows, ∀ r ∈ g.2,
      r ∈ q.window postgresValue rows := by
    intro g hg r hr
    rw [Group.mem_groupsBy hg] at hr
    exact (List.mem_filter.1 hr).1
  have hread := fun rs => Traverse.mapM_eq_map_iff_of_mem (m := rs)
    fun g hg row => Postgres.rollupRow_eq_ok_iff
      (fun r hr => h r (List.mem_filter.1 (hgroup g hg r hr)).1) row
  have hcastable : (∀ g ∈ q.groupsOf postgresValue rows, ∀ r ∈ g.2, r.Castable) ↔
      ∀ r ∈ q.window postgresValue rows, r.Castable := by
    constructor
    · intro hall r hr
      rcases Group.exists_group (q.keysOf postgresValue) hr with ⟨g, hg, hmem⟩
      exact hall g hg r hmem
    · intro hall g hg r hr
      exact hall r (hgroup g hg r hr)
  unfold Postgres.rollup
  rw [hq]
  simp only
  cases hg : Postgres.groups q rows with
  | error e =>
    -- the groups do not read, so some metadata cannot be cast
    constructor
    · intro hcon
      cases hcon
    · rintro ⟨⟨hcast, hall, -⟩, -⟩
      rw [(postgres_groups_iff h hts _).2 ⟨⟨hcast, fun r hr _ _ _ => hall r hr⟩, rfl⟩] at hg
      cases hg
  | ok gs =>
    rcases (postgres_groups_iff h hts gs).1 hg with ⟨⟨hcast, -⟩, rfl⟩
    simp only [Traverse.mapError_eq_ok_iff]
    rw [hread]
    constructor
    · rintro ⟨hall, rfl⟩
      exact ⟨⟨hcast, hcastable.1 fun g hg => (hall g hg).1, fun g hg => (hall g hg).2⟩, rfl⟩
    · rintro ⟨⟨-, hall, hfits⟩, rfl⟩
      exact ⟨fun g hg => ⟨hcastable.2 hall g hg, hfits g hg⟩, rfl⟩

/-! ## Merging on a prefix -/

/-- Add a row to a bucket. -/
def RollupRow.merge (u r : RollupRow) : RollupRow where
  keys := u.keys
  calls := u.calls + r.calls
  inputTokens := u.inputTokens + r.inputTokens
  outputTokens := u.outputTokens + r.outputTokens
  costUsd := u.costUsd + r.costUsd
  unpricedCalls := u.unpricedCalls + r.unpricedCalls
  clientReportedCostUsd := u.clientReportedCostUsd + r.clientReportedCostUsd
  errors := u.errors + r.errors

/-- The rows that agree on their first `k` keys, merged. -/
def mergeOn (k : ℕ) (rows : List RollupRow) : List RollupRow :=
  (Group.groupsBy (fun r => r.keys.take k) rows).map fun g =>
    g.2.foldl RollupRow.merge (RollupRow.empty g.1)

theorem merge_row (keys keys' : List (Option String)) (f f' : Figures) :
    (f.row keys).merge (f'.row keys') = Figures.row keys (f + f') := by
  unfold RollupRow.merge Figures.row
  simp only [Prod.fst_add, Prod.snd_add, EventRow.asU64_add]

theorem foldl_merge (keys : List (Option String)) (gs : List (List (Option String) × Figures))
    (f : Figures) :
    (gs.map fun g => Figures.row g.1 g.2).foldl RollupRow.merge (f.row keys) =
      Figures.row keys (f + (gs.map Prod.snd).sum) := by
  induction gs generalizing f with
  | nil => rw [List.map_nil, List.foldl_nil, List.map_nil, List.sum_nil, add_zero]
  | cons g gs ih =>
    rw [List.map_cons, List.foldl_cons, merge_row, ih, List.map_cons, List.sum_cons, add_assoc]

/-- **Merging the rows of groups gives the rows of the coarser groups.** -/
theorem mergeOn_perm (key : EventRow → List (Option String)) (k : ℕ) (rows : List EventRow) :
    (mergeOn k ((Group.groupsBy key rows).map Firestore.figuresRow)).Perm
      ((Group.groupsBy (fun r => (key r).take k) rows).map Firestore.figuresRow) := by
  have hkeys : (((Group.groupsBy key rows).map Firestore.figuresRow).map
      fun r => r.keys.take k).dedup.Perm (rows.map fun r => (key r).take k).dedup := by
    rw [List.perm_ext_iff_of_nodup (List.nodup_dedup _) (List.nodup_dedup _)]
    intro p
    have hleft : ((Group.groupsBy key rows).map Firestore.figuresRow).map (fun r => r.keys.take k) =
        ((Group.groupsBy key rows).map Prod.fst).map (List.take k) := by
      rw [List.map_map, List.map_map]
      rfl
    have hright : (rows.map fun r => (key r).take k) = (rows.map key).map (List.take k) := by
      rw [List.map_map]
      rfl
    rw [List.mem_dedup, List.mem_dedup, hleft, hright, Group.keys_groupsBy]
    simp only [List.mem_map, List.mem_dedup]
  -- under one prefix, the figures of the groups add up to those of their rows
  have hone : ∀ p, (((Group.groupsBy key rows).map Firestore.figuresRow).filter
        fun r => decide (r.keys.take k = p)).foldl RollupRow.merge (RollupRow.empty p) =
      Firestore.figuresRow (p, rows.filter fun r => decide ((key r).take k = p)) := by
    intro p
    have hfilter : (((Group.groupsBy key rows).map Firestore.figuresRow).filter
        fun r => decide (r.keys.take k = p)) =
        (((Group.groupsBy key rows).filter fun g => decide (g.1.take k = p)).map fun g =>
          (g.1, (g.2.map EventRow.figures).sum)).map fun g => Figures.row g.1 g.2 := by
      rw [List.filter_map, List.map_map]
      rfl
    have hsum := Group.sum_groupsBy_filter key (fun ks => decide (ks.take k = p)) EventRow.figures rows
    rw [hfilter, ← Firestore.row_zero, foldl_merge, zero_add, List.map_map]
    unfold Firestore.figuresRow
    rw [← hsum]
    rfl
  unfold mergeOn
  rw [Group.map_groupsBy (fun g => g.2.foldl RollupRow.merge (RollupRow.empty g.1)),
    Group.map_groupsBy Firestore.figuresRow fun r => (key r).take k]
  refine (hkeys.map _).trans (.of_eq (List.map_congr_left ?_))
  intro p _
  exact hone p

/-! ## What the rows tell -/

/-- The calls of the rows whose keys satisfy `φ`. -/
def callsUnder (φ : List (Option String) → Bool) (rows : List RollupRow) : ℕ :=
  ((rows.filter fun r => φ r.keys).map RollupRow.calls).sum

theorem callsUnder_perm {φ : List (Option String) → Bool} {rows rows' : List RollupRow}
    (h : rows.Perm rows') : callsUnder φ rows = callsUnder φ rows' :=
  ((h.filter _).map _).sum_eq

theorem callsUnder_groups {row : List (Option String) × List EventRow → RollupRow}
    (hkeys : ∀ g, (row g).keys = g.1) (hcalls : ∀ g, (row g).calls = g.2.length)
    (key : EventRow → List (Option String)) (rows : List EventRow)
    (φ : List (Option String) → Bool) :
    callsUnder φ ((Group.groupsBy key rows).map row) = (rows.filter fun r => φ (key r)).length := by
  have hsum := Group.sum_groupsBy_filter key φ (fun _ => 1) rows
  simp only [List.map_const', List.sum_replicate, nsmul_one, Nat.cast_id] at hsum
  unfold callsUnder
  rw [List.filter_map, List.map_map, ← hsum]
  have hfilter : ((fun r => φ r.keys) ∘ row) = fun g => φ g.1 := by
    funext g
    exact congrArg φ (hkeys g)
  rw [hfilter]
  exact congrArg List.sum (List.map_congr_left fun g _ => hcalls g)

theorem sum_figures (rows : List EventRow) :
    (rows.map EventRow.figures).sum =
      (rows.length, Selection.up (rows.map EventRow.inputTokens),
        Selection.up (rows.map EventRow.outputTokens), (rows.map fun r => r.costUsd.getD 0).sum,
        (rows.filter fun r => r.costUsd.isNone).length,
        (rows.map fun r => if r.isClientCost then r.costUsd.getD 0 else 0).sum,
        (rows.filter fun r => decide (r.status ≠ .success)).length) := by
  induction rows with
  | nil => rfl
  | cons r rows ih =>
    rw [List.map_cons, List.sum_cons, ih]
    unfold EventRow.figures Selection.up
    simp only [List.map_cons, List.sum_cons, List.length_cons, List.filter_cons, Prod.mk_add_mk,
      Prod.mk.injEq, true_and]
    refine ⟨add_comm _ _, ?_, ?_⟩
    · by_cases hc : r.costUsd.isNone = true <;> simp [hc, add_comm]
    · by_cases hs : r.status = .success <;> simp [hs, add_comm]

theorem keys_figuresRow (g : List (Option String) × List EventRow) :
    (Firestore.figuresRow g).keys = g.1 := rfl

theorem calls_figuresRow (g : List (Option String) × List EventRow) :
    (Firestore.figuresRow g).calls = g.2.length := by
  unfold Firestore.figuresRow
  rw [sum_figures]
  rfl

/-- Clamping the sum of some counts to zero is clamping each of them, modulo `2 ^ 64`. -/
def ClampExact (ns : List Int) : Prop :=
  2 * i64Bound ∣ min (Selection.up ns) (Selection.down ns)

theorem asU64_eq_iff (a b : Int) :
    EventRow.asU64 a = EventRow.asU64 b ↔ 2 * i64Bound ∣ b - a := by
  have hpos : (0 : Int) < 2 * i64Bound := by decide
  have ha := Int.emod_nonneg a hpos.ne'
  have hb := Int.emod_nonneg b hpos.ne'
  have ha' := Int.emod_lt_of_pos a hpos
  have hb' := Int.emod_lt_of_pos b hpos
  rw [← Int.modEq_iff_dvd, Int.ModEq, ← UInt64.toNat_inj]
  unfold EventRow.asU64
  rw [UInt64.toNat_ofNat', UInt64.toNat_ofNat']
  unfold i64Bound at *
  omega

theorem clampU64_sum_iff (ns : List Int) :
    clampU64 ns.sum = EventRow.asU64 (Selection.up ns) ↔ ClampExact ns := by
  have hup := Selection.up_nonneg ns
  have hdown := Selection.down_nonneg ns
  have hloss : Selection.up ns - max (Selection.up ns - Selection.down ns) 0 =
      min (Selection.up ns) (Selection.down ns) := by omega
  unfold clampU64 ClampExact
  rw [asU64_eq_iff, Selection.sum_eq, hloss]

/-- **The two ways to sum a group** give one row exactly when the clamps do not matter. -/
theorem groupRow_eq_figuresRow_iff (g : List (Option String) × List EventRow) :
    groupRow g.1 g.2 = Firestore.figuresRow g ↔
      ClampExact (g.2.map EventRow.inputTokens) ∧ ClampExact (g.2.map EventRow.outputTokens) := by
  unfold groupRow Firestore.figuresRow Figures.row
  rw [sum_figures, ← clampU64_sum_iff, ← clampU64_sum_iff]
  simp

/-! ## Where the backends agree -/

/-- The three backends over one table. -/
def rollupBackends (rows : List EventRow) :
    List (RollupQuery → Except StoreError (List RollupRow)) :=
  [rollup rows, Postgres.rollup rows, Firestore.rollup rows]

/-- Every backend answers the query, with the same rows up to their order and no key twice; and
every backend answers each coarser query with these rows merged. -/
def RollupsAgree (rows : List EventRow) (q : RollupQuery) : Prop :=
  ∃ out : List RollupRow, (out.map RollupRow.keys).Nodup ∧
    (∀ backend ∈ rollupBackends rows, ∃ o, backend q = .ok o ∧ o.Perm out) ∧
    ∀ k, 0 < k → k < q.groupBy.length → ∀ backend ∈ rollupBackends rows,
      ∃ o, backend (q.grouped k) = .ok o ∧ o.Perm (mergeOn k out)

/-- Whether a member of the metadata is a string, null or not there. -/
def plainMember (r : EventRow) (key : String) : Bool :=
  match r.metadata.bind (Json.get key) with
  | none | some .null | some (.str _) => true
  | _ => false

/-- The condition under which the three backends answer a query alike. -/
structure RollupExact (rows : List EventRow) (q : RollupQuery) : Prop where
  casts : ∀ r ∈ rows, q.reaches r = true → castsFilter r q.filter = true → r.Castable
  filters : ∀ r ∈ rows, q.reaches r = true →
    q.hits sqliteValue r = true ∨ q.hits postgresValue r = true → q.hits Firestore.valueOf r = true
  castable : ∀ r ∈ q.window Firestore.valueOf rows, r.Castable
  plain : ∀ r ∈ q.window Firestore.valueOf rows, ∀ d ∈ q.groupBy, ∀ key,
    d.storage = .metadataKey key → plainMember r key = true
  sums : ∀ g ∈ q.groupsOf Firestore.valueOf rows, SumsFit g.2 ∧
    ClampExact (g.2.map EventRow.inputTokens) ∧ ClampExact (g.2.map EventRow.outputTokens)

/-! ### Values -/

theorem getD_get (r : EventRow) (key : String) :
    (r.metadata.getD .null).get key = r.metadata.bind (Json.get key) := by
  cases r.metadata <;> rfl

/-- What Firestore reads, the others read. -/
theorem values_of_valueOf {d : Dimension} {r : EventRow} {v : String}
    (h : Firestore.valueOf d r = some v) : sqliteValue d r = some v ∧ postgresValue d r = some v := by
  unfold Firestore.valueOf at h
  unfold sqliteValue keyExpr postgresValue
  cases hd : d.storage with
  | column value =>
    rw [hd] at h
    exact ⟨h, h⟩
  | metadataKey key =>
    rw [hd] at h
    rw [Json.getStr_eq_some_iff, getD_get] at h
    have htext : jsonExtract r.metadata key = .text v := jsonExtract_eq_text_iff.2 (.inl h)
    simp only [htext]
    refine ⟨rfl, ?_⟩
    unfold EventRow.member
    rw [h]
    rfl
  | day =>
    rw [hd] at h
    exact ⟨h, h⟩

theorem hits_of_hits {q : RollupQuery} {r : EventRow} (h : q.hits Firestore.valueOf r = true) :
    q.hits sqliteValue r = true ∧ q.hits postgresValue r = true := by
  unfold RollupQuery.hits at *
  rw [List.all_eq_true] at h
  rw [List.all_eq_true, List.all_eq_true]
  constructor
  · intro f hf
    rw [beq_iff_eq]
    exact (values_of_valueOf (beq_iff_eq.1 (h f hf))).1
  · intro f hf
    rw [beq_iff_eq]
    exact (values_of_valueOf (beq_iff_eq.1 (h f hf))).2

/-- A column is a text or NULL. -/
theorem column_isTextual {d : Dimension} {value : EventRow → SqlValue}
    (hd : d.storage = .column value) (r : EventRow) : (value r).IsTextual := by
  cases d with
  | name =>
    rw [← Storage.column.inj hd]
    unfold SqlValue.IsTextual
    simp only
    cases r.name with
    | none => exact .inl rfl
    | some n => exact .inr ⟨n, rfl⟩
  | project | provider | model =>
    rw [← Storage.column.inj hd]
    exact .inr ⟨_, rfl⟩
  | _ => cases hd

/-- On plain members all three read the same. -/
theorem values_of_plain {d : Dimension} {r : EventRow}
    (h : ∀ key, d.storage = .metadataKey key → plainMember r key = true) :
    (keyExpr .ts d r).IsTextual ∧ sqliteValue d r = Firestore.valueOf d r ∧
      postgresValue d r = Firestore.valueOf d r := by
  unfold sqliteValue keyExpr postgresValue Firestore.valueOf
  cases hd : d.storage with
  | column value =>
    exact ⟨column_isTextual hd r, rfl, rfl⟩
  | metadataKey key =>
    have hplain := h key hd
    have hget := getD_get r key
    unfold plainMember at hplain
    simp only
    unfold jsonExtract EventRow.member Json.getStr
    rw [hget]
    cases hm : r.metadata.bind (Json.get key) with
    | none => exact ⟨.inl rfl, rfl, rfl⟩
    | some j =>
      rw [hm] at hplain
      cases j with
      | null => exact ⟨.inl rfl, rfl, rfl⟩
      | str s => exact ⟨.inr ⟨s, rfl⟩, rfl, rfl⟩
      | _ => cases hplain
  | day => exact ⟨.inr ⟨_, rfl⟩, rfl, rfl⟩

/-- A text that Firestore reads too is a plain member. -/
theorem plain_of_values {d : Dimension} {r : EventRow} (htext : (keyExpr .ts d r).IsTextual)
    (h : Firestore.valueOf d r = none → sqliteValue d r = none) {key : String}
    (hd : d.storage = .metadataKey key) : plainMember r key = true := by
  unfold sqliteValue keyExpr Firestore.valueOf at *
  rw [hd] at htext h
  simp only at htext h
  unfold jsonExtract at htext h
  unfold Json.getStr at h
  rw [getD_get] at h
  unfold plainMember
  cases hm : r.metadata.bind (Json.get key) with
  | none => rfl
  | some j =>
    rw [hm] at htext h
    cases j with
    | null => rfl
    | str s => rfl
    | bool b => simp [SqlValue.IsTextual] at htext
    | num n =>
      cases n with
      | int n =>
        simp only at htext
        split_ifs at htext <;> simp [SqlValue.IsTextual] at htext
      | float t => simp [SqlValue.IsTextual] at htext
    | arr xs => simp [Json.asStr, SqlValue.asText] at h
    | obj fields => simp [Json.asStr, SqlValue.asText] at h

/-! ### One query -/

/-- The documents Firestore folds are its window. -/
theorem firestore_window (q : RollupQuery) (rows : List EventRow) :
    (rows.filter (Firestore.pushed q)).filter (Firestore.kept q) =
      q.window Firestore.valueOf rows := by
  rw [List.filter_filter]
  unfold RollupQuery.window
  refine List.filter_congr ?_
  intro r _
  unfold Firestore.kept Firestore.pushed RollupQuery.reaches RollupQuery.hits
  rw [Bool.and_comm, ← Bool.and_assoc]

theorem nodup_keys_of_perm {key : EventRow → List (Option String)} {rows : List EventRow}
    {out : List RollupRow}
    (h : out.Perm ((Group.groupsBy key rows).map Firestore.figuresRow)) :
    (out.map RollupRow.keys).Nodup := by
  have hkeys : ((Group.groupsBy key rows).map Firestore.figuresRow).map RollupRow.keys =
      (Group.groupsBy key rows).map Prod.fst := by
    rw [List.map_map]
    rfl
  rw [(h.map RollupRow.keys).nodup_iff, hkeys]
  exact Group.nodup_keys key rows

section Query

variable {rows : List EventRow} {q : RollupQuery}

/-- Rows read off the groups of two values count the same rows under the same keys only if the
wider selection is the narrower one. -/
theorem windows_agree {val : Dimension → EventRow → Option String} {out : List RollupRow}
    (hhits : ∀ r, q.hits Firestore.valueOf r = true → q.hits val r = true)
    (hperm : ((q.groupsOf val rows).map fun g => groupRow g.1 g.2).Perm out)
    (hout : out.Perm ((q.groupsOf Firestore.valueOf rows).map Firestore.figuresRow)) :
    ∀ r ∈ rows, q.reaches r = true → q.hits val r = true → q.hits Firestore.valueOf r = true := by
  have hcalls := callsUnder_perm (φ := fun _ => true) (hperm.trans hout)
  unfold RollupQuery.groupsOf at hcalls
  rw [callsUnder_groups (fun _ => rfl) (fun _ => rfl),
    callsUnder_groups keys_figuresRow calls_figuresRow, List.filter_true, List.filter_true] at hcalls
  have hagree := Selection.filter_agree (l := rows)
    (p := fun r => q.reaches r && q.hits Firestore.valueOf r)
    (q := fun r => q.reaches r && q.hits val r) (fun r _ h => by
      rw [Bool.and_eq_true] at h ⊢
      exact ⟨h.1, hhits r h.2⟩) hcalls.symm
  intro r hr hreach hval
  exact (Bool.and_eq_true_iff.1 (hagree r hr (Bool.and_eq_true_iff.2 ⟨hreach, hval⟩))).2

theorem window_eq {val : Dimension → EventRow → Option String}
    (hhits : ∀ r, q.hits Firestore.valueOf r = true → q.hits val r = true)
    (h : ∀ r ∈ rows, q.reaches r = true → q.hits val r = true →
      q.hits Firestore.valueOf r = true) :
    q.window val rows = q.window Firestore.valueOf rows := by
  unfold RollupQuery.window
  refine List.filter_congr ?_
  intro r hr
  rw [Bool.eq_iff_iff, Bool.and_eq_true, Bool.and_eq_true]
  exact ⟨fun hv => ⟨hv.1, h r hr hv.1 hv.2⟩, fun hv => ⟨hv.1, hhits r hv.2⟩⟩

/-- Where SQLite and Firestore return the same rows, a value Firestore misses is missing. -/
theorem none_of_none {out : List RollupRow}
    (hwindow : q.window sqliteValue rows = q.window Firestore.valueOf rows)
    (hperm : ((q.groupsOf sqliteValue rows).map fun g => groupRow g.1 g.2).Perm out)
    (hout : out.Perm ((q.groupsOf Firestore.valueOf rows).map Firestore.figuresRow)) :
    ∀ r ∈ q.window Firestore.valueOf rows, ∀ d ∈ q.groupBy,
      Firestore.valueOf d r = none → sqliteValue d r = none := by
  intro r hr d hd hnone
  rcases List.getElem_of_mem hd with ⟨i, hi, hdi⟩
  let φ : List (Option String) → Bool := fun ks => decide (ks[i]? = some none)
  have hφ : ∀ (val : Dimension → EventRow → Option String) (r' : EventRow),
      φ (q.keysOf val r') = decide (val d r' = none) := by
    intro val r'
    simp [φ, RollupQuery.keysOf, List.getElem?_map, List.getElem?_eq_getElem hi, hdi]
  have hcalls := callsUnder_perm (φ := φ) (hperm.trans hout)
  unfold RollupQuery.groupsOf at hcalls
  rw [callsUnder_groups (fun _ => rfl) (fun _ => rfl),
    callsUnder_groups keys_figuresRow calls_figuresRow, hwindow] at hcalls
  simp only [hφ] at hcalls
  have hle : ∀ r' ∈ q.window Firestore.valueOf rows, decide (sqliteValue d r' = none) = true →
      decide (Firestore.valueOf d r' = none) = true := by
    intro r' _ hs
    rw [decide_eq_true_eq] at hs ⊢
    cases hv : Firestore.valueOf d r' with
    | none => rfl
    | some v =>
      rw [(values_of_valueOf hv).1] at hs
      cases hs
  exact of_decide_eq_true (Selection.filter_agree hle hcalls r hr (decide_eq_true hnone))

/-- The groups the three backends form are the same where they read the same values. -/
theorem groupsOf_eq {val : Dimension → EventRow → Option String}
    (hwindow : q.window val rows = q.window Firestore.valueOf rows)
    (h : ∀ r ∈ q.window Firestore.valueOf rows, ∀ d ∈ q.groupBy,
      val d r = Firestore.valueOf d r) :
    q.groupsOf val rows = q.groupsOf Firestore.valueOf rows := by
  unfold RollupQuery.groupsOf
  rw [hwindow]
  refine Group.groupsBy_congr ?_
  intro r hr
  exact List.map_congr_left fun d hd => h r hr d hd

/-- Where the groups are the same and so are their rows, no clamp matters. -/
theorem rows_eq_of_perm {out : List RollupRow}
    (hperm : ((q.groupsOf Firestore.valueOf rows).map fun g => groupRow g.1 g.2).Perm out)
    (hout : out.Perm ((q.groupsOf Firestore.valueOf rows).map Firestore.figuresRow)) :
    ∀ g ∈ q.groupsOf Firestore.valueOf rows, groupRow g.1 g.2 = Firestore.figuresRow g := by
  intro g hg
  have hmem := (hperm.trans hout).subset (List.mem_map_of_mem (f := fun g => groupRow g.1 g.2) hg)
  rcases List.mem_map.1 hmem with ⟨g', hg', heq⟩
  have hkey : g'.1 = g.1 := congrArg RollupRow.keys heq
  have hsame : g' = g := by
    refine Prod.ext hkey ?_
    rw [Group.mem_groupsBy hg', Group.mem_groupsBy hg, hkey]
  rw [← heq, hsame]

end Query

/-- **One query**: where every backend answers with the same rows, the condition holds. -/
theorem exact_of_perm {rows : List EventRow} (hw : ∀ r ∈ rows, r.Written) {q : RollupQuery}
    (hq : q.invalid = none) (hts : q.timeKey = .ts) {out : List RollupRow}
    (h : ∀ backend ∈ rollupBackends rows, ∃ o, backend q = .ok o ∧ o.Perm out) :
    RollupExact rows q := by
  rcases h (rollup rows) (by simp [rollupBackends]) with ⟨oS, hS, hpermS⟩
  rcases h (Postgres.rollup rows) (by simp [rollupBackends]) with ⟨oP, hP, hpermP⟩
  rcases h (Firestore.rollup rows) (by simp [rollupBackends]) with ⟨oF, hF, hpermF⟩
  rcases (sqlite_rollup_iff hq hts oS).1 hS with ⟨⟨htext, hsums⟩, rfl⟩
  rcases (postgres_rollup_iff hw hq hts oP).1 hP with ⟨⟨hcasts, hcastable, -⟩, rfl⟩
  have hfire := Firestore.rollup_perm hF
  rw [firestore_window] at hfire
  have hout : out.Perm ((q.groupsOf Firestore.valueOf rows).map Firestore.figuresRow) :=
    hpermF.symm.trans hfire
  have hhitsS := fun r h => (hits_of_hits (q := q) (r := r) h).1
  have hhitsP := fun r h => (hits_of_hits (q := q) (r := r) h).2
  have hagreeS := windows_agree hhitsS hpermS hout
  have hagreeP := windows_agree hhitsP hpermP hout
  have hwindowS := window_eq hhitsS hagreeS
  have hnone := none_of_none hwindowS hpermS hout
  rw [hwindowS] at htext
  have hvalues : ∀ r ∈ q.window Firestore.valueOf rows, ∀ d ∈ q.groupBy, ∀ key,
      d.storage = .metadataKey key → plainMember r key = true :=
    fun r hr d hd key hkey => plain_of_values (htext r hr d hd) (hnone r hr d hd) hkey
  have hgroups : q.groupsOf sqliteValue rows = q.groupsOf Firestore.valueOf rows :=
    groupsOf_eq hwindowS fun r hr d hd => (values_of_plain (hvalues r hr d hd)).2.1
  rw [hgroups] at hpermS hsums
  have hrows := rows_eq_of_perm hpermS hout
  refine ⟨hcasts, ?_, ?_, hvalues, ?_⟩
  · intro r hr hreach hor
    exact hor.elim (hagreeS r hr hreach) (hagreeP r hr hreach)
  · rw [← window_eq hhitsP hagreeP]
    exact hcastable
  · intro g hg
    exact ⟨hsums g hg, (groupRow_eq_figuresRow_iff g).1 (hrows g hg)⟩

/-- Under the condition every backend answers with the rows of its groups. -/
theorem perm_of_exact {rows : List EventRow} (hw : ∀ r ∈ rows, r.Written) {q : RollupQuery}
    (hq : q.invalid = none) (hts : q.timeKey = .ts) (h : RollupExact rows q) :
    ∀ backend ∈ rollupBackends rows, ∃ o, backend q = .ok o ∧
      o.Perm ((q.groupsOf Firestore.valueOf rows).map Firestore.figuresRow) := by
  have hhitsS := fun r h => (hits_of_hits (q := q) (r := r) h).1
  have hhitsP := fun r h => (hits_of_hits (q := q) (r := r) h).2
  have hwindowS := window_eq hhitsS fun r hr hreach hs => h.filters r hr hreach (.inl hs)
  have hwindowP := window_eq hhitsP fun r hr hreach hs => h.filters r hr hreach (.inr hs)
  have hvalues := fun r hr d hd => values_of_plain (h.plain r hr d hd)
  have hgroupsS := groupsOf_eq hwindowS fun r hr d hd => (hvalues r hr d hd).2.1
  have hgroupsP := groupsOf_eq hwindowP fun r hr d hd => (hvalues r hr d hd).2.2
  have hrows : (q.groupsOf Firestore.valueOf rows).map (fun g => groupRow g.1 g.2) =
      (q.groupsOf Firestore.valueOf rows).map Firestore.figuresRow := by
    refine List.map_congr_left ?_
    intro g hg
    exact (groupRow_eq_figuresRow_iff g).2 (h.sums g hg).2
  intro backend hmem
  rcases List.mem_cons.1 hmem with rfl | hmem
  · refine ⟨_, (sqlite_rollup_iff hq hts _).2 ⟨⟨?_, ?_⟩, rfl⟩, ?_⟩
    · rw [hwindowS]
      exact fun r hr d hd => (hvalues r hr d hd).1
    · rw [hgroupsS]
      exact fun g hg => (h.sums g hg).1
    · rw [hgroupsS, hrows]
  · rcases List.mem_cons.1 hmem with rfl | hmem
    · refine ⟨_, (postgres_rollup_iff hw hq hts _).2 ⟨⟨h.casts, ?_, ?_⟩, rfl⟩, ?_⟩
      · rw [hwindowP]
        exact h.castable
      · rw [hgroupsP]
        exact fun g hg => (h.sums g hg).1.groupTotalsFit
      · rw [hgroupsP, hrows]
    · rw [List.mem_singleton.1 hmem]
      rcases (Firestore.exists_rollup_iff rows q).2 hq with ⟨o, ho⟩
      have hfire := Firestore.rollup_perm ho
      rw [firestore_window] at hfire
      exact ⟨o, ho, hfire⟩

theorem invalid_eq_none_iff {q : RollupQuery} :
    q.invalid = none ↔ q.groupBy ≠ [] ∧ q.groupBy.length ≤ MAX_GROUP_BY ∧
      (∀ d ∈ q.groupBy.zipIdx, d.1 ∉ q.groupBy.take d.2) ∧
      (q.filter.any fun f => f.1 == .day) = false ∧
      (q.until_.any fun u => decide (u < q.since)) = false := by
  unfold RollupQuery.invalid
  cases hempty : q.groupBy.isEmpty with
  | true => simp [List.isEmpty_iff.1 hempty]
  | false =>
    have hne : q.groupBy ≠ [] := by
      intro hnil
      rw [hnil] at hempty
      cases hempty
    rw [if_neg Bool.false_ne_true]
    by_cases hlen : MAX_GROUP_BY < q.groupBy.length
    · rw [if_pos hlen]
      simp only [reduceCtorEq, false_iff]
      rintro ⟨-, hle, -⟩
      omega
    · rw [if_neg hlen]
      cases hfind : q.groupBy.zipIdx.find? (fun d => decide (d.1 ∈ q.groupBy.take d.2)) with
      | some d =>
        simp only [reduceCtorEq, false_iff]
        rintro ⟨-, -, hfresh, -⟩
        have hsome := List.find?_some hfind
        exact hfresh d (List.mem_of_find?_eq_some hfind) (of_decide_eq_true hsome)
      | none =>
        have hfresh : ∀ d ∈ q.groupBy.zipIdx, d.1 ∉ q.groupBy.take d.2 := by
          intro d hd
          simpa using List.find?_eq_none.1 hfind d hd
        simp only
        cases hday : q.filter.any fun f => f.1 == .day with
        | true => simp
        | false =>
          rw [if_neg Bool.false_ne_true]
          cases huntil : q.until_.any fun u => decide (u < q.since) with
          | true => simp
          | false =>
            rw [if_neg Bool.false_ne_true]
            exact ⟨fun _ => ⟨hne, by omega, hfresh, rfl, rfl⟩, fun _ => rfl⟩

/-- A coarser query is valid too. -/
theorem grouped_invalid {q : RollupQuery} (hq : q.invalid = none) {k : ℕ} (hk : 0 < k) :
    (q.grouped k).invalid = none := by
  rcases invalid_eq_none_iff.1 hq with ⟨hne, hlen, hfresh, hday, huntil⟩
  refine invalid_eq_none_iff.2 ⟨?_, ?_, ?_, hday, huntil⟩
  · intro hnil
    rcases List.take_eq_nil_iff.1 hnil with hk0 | hempty
    · exact absurd hk0 hk.ne'
    · exact hne hempty
  · exact (List.length_take_le' k q.groupBy).trans hlen
  · intro d hd hmem
    have hat : (q.groupBy.take k)[d.2]? = some d.1 := List.mem_zipIdx_iff_getElem?.1 hd
    have hsub : q.groupBy[d.2]? = some d.1 := by
      rw [List.getElem?_take] at hat
      split_ifs at hat
      exact hat
    refine hfresh d (List.mem_zipIdx_iff_getElem?.2 hsub) ?_
    change d.1 ∈ (q.groupBy.take k).take d.2 at hmem
    rw [List.take_take] at hmem
    exact List.take_subset_take_left _ (min_le_left _ _) hmem

/-- Usage per customer, from the beginning of time. -/
def byCustomer : RollupQuery where
  groupBy := [.customer]
  since := 0

/-- Events whose only one names its customer by this value. -/
def customerEvents (customer : Json) (h : (Json.obj [("customer_id", customer)]).written = true) :
    StoredEvents where
  events := [(1, { sampleEvent with metadata := .obj [("customer_id", customer)] })]
  table := EventTable.empty.append
    { sampleEvent with metadata := .obj [("customer_id", customer)] } rfl
  rows_eq := rfl
  written := by
    intro p hp
    rw [List.mem_singleton.1 hp]
    exact h

end LightTrack
