import LightTrack.Lib.Selection
import LightTrack.Postgres.Store
import LightTrack.Store.NoPoison
import LightTrack.Store.Timestamp

/-! # Rows Postgres can read

A stored row can make a read raise in two ways: its metadata does not survive the cast
to `jsonb`, or its token counts take a sum out of the BIGINT range.  A table is
`PgReadable` when no row does; then every read of every project succeeds.

* `CountsFit.inI64` : the counts of some rows of one project add up to a BIGINT,
* `written_stamp`, `nulFree_stamp` : a fill leaves metadata that can be cast,
* `pg_no_poison_run` : over runs whose stored events keep the table readable, no usage
  read, rollup or admission check ever raises.
-/

namespace LightTrack

/-! ## Counts of a project -/

/-- The positive counts add up to a BIGINT, and so do the negative ones. -/
structure BoundedSums (ns : List Int) : Prop where
  up : Selection.up ns < i64Bound
  down : Selection.down ns ≤ i64Bound

/-- It is what every selection needs. -/
theorem boundedSums_iff {ns : List Int} :
    BoundedSums ns ↔ ∀ m : List Int, m.Sublist ns → InI64 m.sum := by
  have hall := Selection.selections_bounded_iff (l := ns) (-i64Bound) (i64Bound - 1)
  constructor
  · rintro ⟨hup, hdown⟩ m hm
    have hsum := hall.2 ⟨by omega, by omega⟩ m hm
    exact ⟨hsum.1, by omega⟩
  · intro h
    have hbounds := hall.1 fun m hm => ⟨(h m hm).1, by have hlt := (h m hm).2; omega⟩
    exact ⟨by omega, by omega⟩

/-- The counts of each project can be added up. -/
def CountsFit (count : EventRow → Int) (rows : List EventRow) : Prop :=
  ∀ project, BoundedSums ((rows.filter fun r => r.projectId == project).map count)

namespace CountsFit

variable {count : EventRow → Int} {rows rows' : List EventRow}

theorem sublist (h : CountsFit count rows) (hsub : rows'.Sublist rows) : CountsFit count rows' := by
  intro project
  have hsub' := (hsub.filter fun r => r.projectId == project).map count
  exact ⟨(Selection.up_le hsub').trans_lt (h project).up,
    (Selection.down_le hsub').trans (h project).down⟩

/-- The counts of some rows of one project add up to a BIGINT. -/
theorem inI64 (h : CountsFit count rows) (hsub : rows'.Sublist rows) {project : String}
    (hproject : ∀ r ∈ rows', r.projectId = project) : InI64 (rows'.map count).sum := by
  apply boundedSums_iff.1 (h project)
  have hown := hsub.filter fun r => r.projectId == project
  rw [List.filter_eq_self.2 fun r hr => by simp [hproject r hr]] at hown
  exact hown.map count

theorem congr {R : EventRow → EventRow → Prop} (h : CountsFit count rows)
    (hlike : List.Forall₂ R rows rows') (hproject : ∀ r r', R r r' → r'.projectId = r.projectId)
    (hcount : ∀ r r', R r r' → count r' = count r) : CountsFit count rows' := by
  intro project
  rw [Selection.filter_map_eq_of_forall₂ hlike (fun r r' hr => by rw [hproject r r' hr]) hcount]
  exact h project

end CountsFit

/-! ## Metadata of a filled row -/

namespace Json

theorem nulFreeFields_iff {fields : List (String × Json)} :
    nulFreeFields fields = true ↔
      ∀ kv ∈ fields, '\x00' ∉ kv.1.toList ∧ kv.2.nulFree = true := by
  induction fields with
  | nil => simp [nulFreeFields]
  | cons kv fields ih =>
    rcases kv with ⟨k, v⟩
    rw [nulFreeFields, Bool.and_eq_true, Bool.and_eq_true, ih, List.forall_mem_cons]
    simp

theorem writtenFields_iff {fields : List (String × Json)} :
    writtenFields fields = true ↔ ∀ kv ∈ fields, kv.2.written = true := by
  induction fields with
  | nil => simp [writtenFields]
  | cons kv fields ih =>
    rcases kv with ⟨k, v⟩
    rw [writtenFields, Bool.and_eq_true, ih, List.forall_mem_cons]

theorem mem_insertKey {key : String} {value : Json} {fields : List (String × Json)}
    {kv : String × Json} (h : kv ∈ insertKey key value fields) :
    kv ∈ fields ∨ kv = (key, value) := by
  rcases List.mem_append.1 h with h | h
  · exact .inl (List.mem_filter.1 h).1
  · exact .inr (List.mem_singleton.1 h)

theorem nodup_insertKey {key : String} {value : Json} {fields : List (String × Json)}
    (h : (fields.map Prod.fst).Nodup) : ((insertKey key value fields).map Prod.fst).Nodup := by
  unfold insertKey
  rw [List.map_append, List.nodup_append]
  refine ⟨h.sublist (List.filter_sublist.map _), List.nodup_singleton _, ?_⟩
  intro k hk k' hk' heq
  rcases List.mem_map.1 hk with ⟨kv, hkv, rfl⟩
  rw [List.map_singleton, List.mem_singleton] at hk'
  rw [hk'] at heq
  simpa [heq] using (List.mem_filter.1 hkv).2

end Json

namespace PriceFill

/-- The entries of a stamped object. -/
theorem mem_stamp {f : PriceFill} {fields : List (String × Json)} {kv : String × Json}
    (h : kv ∈ Json.insertKey "priced_at" (.str f.pricedAt)
      (Json.insertKey "cost_source" (.str FILL_SOURCE) fields)) :
    kv ∈ fields ∨ kv = ("cost_source", .str FILL_SOURCE) ∨ kv = ("priced_at", .str f.pricedAt) := by
  rcases Json.mem_insertKey h with h | h
  · rcases Json.mem_insertKey h with h | h
    · exact .inl h
    · exact .inr (.inl h)
  · exact .inr (.inr h)

theorem stamp_eq (f : PriceFill) (m : Json) :
    ∃ fields, f.stamp m = .obj (Json.insertKey "priced_at" (.str f.pricedAt)
        (Json.insertKey "cost_source" (.str FILL_SOURCE) fields)) ∧
      (fields = [] ∨ m = .obj fields) := by
  cases m with
  | obj fields => exact ⟨fields, rfl, .inr rfl⟩
  | _ => exact ⟨[], rfl, .inl rfl⟩

theorem written_stamp (f : PriceFill) {m : Json} (h : m.written = true) :
    (f.stamp m).written = true := by
  rcases f.stamp_eq m with ⟨fields, hstamp, hfields⟩
  have hown : (fields.map Prod.fst).Nodup ∧ ∀ kv ∈ fields, kv.2.written = true := by
    rcases hfields with rfl | rfl
    · simp
    · rw [Json.written, Bool.and_eq_true, decide_eq_true_eq, Json.writtenFields_iff] at h
      exact h
  rw [hstamp, Json.written, Bool.and_eq_true, decide_eq_true_eq, Json.writtenFields_iff]
  refine ⟨Json.nodup_insertKey (Json.nodup_insertKey hown.1), ?_⟩
  intro kv hkv
  rcases mem_stamp hkv with hkv | rfl | rfl
  · exact hown.2 kv hkv
  · rfl
  · rfl

theorem nulFree_stamp {f : PriceFill} (hat : '\x00' ∉ f.pricedAt.toList) {m : Json}
    (h : m.nulFree = true) : (f.stamp m).nulFree = true := by
  rcases f.stamp_eq m with ⟨fields, hstamp, hfields⟩
  have hown : ∀ kv ∈ fields, '\x00' ∉ kv.1.toList ∧ kv.2.nulFree = true := by
    rcases hfields with rfl | rfl
    · simp
    · rwa [Json.nulFree, Json.nulFreeFields_iff] at h
  rw [hstamp, Json.nulFree, Json.nulFreeFields_iff]
  intro kv hkv
  rcases mem_stamp hkv with hkv | rfl | rfl
  · exact hown kv hkv
  · decide +kernel
  · refine ⟨?_, ?_⟩
    · change '\x00' ∉ "priced_at".toList
      decide +kernel
    · simpa [Json.nulFree] using hat

end PriceFill

/-! ## Readable tables -/

/-- The tokens of a row. -/
def EventRow.allTokens (r : EventRow) : Int := r.inputTokens + r.outputTokens

/-- Every row's metadata can be cast, and the counts of each project can be added up. -/
structure PgReadable (rows : List EventRow) : Prop where
  written : ∀ r ∈ rows, r.Written
  castable : ∀ r ∈ rows, r.Castable
  input : CountsFit EventRow.inputTokens rows
  output : CountsFit EventRow.outputTokens rows
  tokens : CountsFit EventRow.allTokens rows

/-- `r'` reads like `r` on Postgres: it can be cast if `r` can, and has its project and counts. -/
structure PgReadsLike (r r' : EventRow) : Prop where
  written : r.Written → r'.Written
  castable : r.Castable → r'.Castable
  project : r'.projectId = r.projectId
  input : r'.inputTokens = r.inputTokens
  output : r'.outputTokens = r.outputTokens

theorem PgReadsLike.refl (r : EventRow) : PgReadsLike r r := ⟨id, id, rfl, rfl, rfl⟩

namespace PgReadable

variable {rows rows' : List EventRow}

/-- Rows that read alike are readable alike. -/
theorem congr (h : PgReadable rows) (hlike : List.Forall₂ PgReadsLike rows rows') :
    PgReadable rows' := by
  have hproject : ∀ r r', PgReadsLike r r' → r'.projectId = r.projectId := fun _ _ hr => hr.project
  refine ⟨?_, ?_, ?_, ?_, ?_⟩
  · intro r' hr'
    rcases Selection.exists_left_of_mem hlike hr' with ⟨r, hr, hreads⟩
    exact hreads.written (h.written r hr)
  · intro r' hr'
    rcases Selection.exists_left_of_mem hlike hr' with ⟨r, hr, hreads⟩
    exact hreads.castable (h.castable r hr)
  · exact h.input.congr hlike hproject fun _ _ hr => hr.input
  · exact h.output.congr hlike hproject fun _ _ hr => hr.output
  · apply h.tokens.congr hlike hproject
    intro r r' hr
    unfold EventRow.allTokens
    rw [hr.input, hr.output]

/-- Fewer rows are readable too. -/
theorem sublist (h : PgReadable rows) (hsub : rows'.Sublist rows) : PgReadable rows' :=
  ⟨fun r hr => h.written r (hsub.subset hr), fun r hr => h.castable r (hsub.subset hr),
    h.input.sublist hsub, h.output.sublist hsub, h.tokens.sublist hsub⟩

/-- An aggregate over some rows of one project can be read. -/
theorem pgFits (h : PgReadable rows) (hsub : rows'.Sublist rows) {project : String}
    (hproject : ∀ r ∈ rows', r.projectId = project) : PgFits rows' := by
  refine ⟨(h.sublist hsub).castable, ?_, h.tokens.inI64 hsub hproject⟩
  intro r hr
  have hone := h.tokens.inI64 ((List.singleton_sublist.2 hr).trans hsub) fun r' hr' =>
    (List.mem_singleton.1 hr') ▸ hproject r hr
  rwa [List.map_singleton, List.sum_singleton] at hone

theorem groupTotalsFit (h : PgReadable rows) (hsub : rows'.Sublist rows) {project : String}
    (hproject : ∀ r ∈ rows', r.projectId = project) : GroupTotalsFit rows' :=
  ⟨h.input.inI64 hsub hproject, h.output.inI64 hsub hproject⟩

/-! ## Every read succeeds -/

theorem usageCols (h : PgReadable rows) (hsub : rows'.Sublist rows) {project : String}
    (hproject : ∀ r ∈ rows', r.projectId = project) : ∃ u, Postgres.usageCols rows' = .ok u :=
  ⟨_, (Postgres.usageCols_eq_ok_iff (h.sublist hsub).written _).2 ⟨h.pgFits hsub hproject, rfl⟩⟩

theorem usageSince (h : PgReadable rows) (project : String) (since : Time) :
    ∃ u, Postgres.usageSince rows project since = .ok u := by
  rcases h.usageCols List.filter_sublist
    (fun r hr => Readable.project_of_inWindow (List.mem_filter.1 hr).2) with ⟨u, hu⟩
  exact ⟨u, Traverse.mapError_eq_ok_iff.2 hu⟩

theorem selectScoped (h : PgReadable rows) (project : String) (since : Time) (s : LimitScope) :
    ∃ u, Postgres.selectScoped rows project since s = .ok u := by
  refine ⟨_, (Postgres.selectScoped_eq_ok_iff h.written project since s _).2 ⟨⟨?_, ?_⟩, rfl⟩⟩
  · intro r hr _ _
    exact h.castable r hr
  · have hproject : ∀ r ∈ Postgres.hits rows project since s, r.projectId = project := fun r hr =>
      Readable.project_of_inWindow (Bool.and_eq_true_iff.1 (List.mem_filter.1 hr).2).1
    exact h.pgFits List.filter_sublist hproject

theorem usageInTx (h : PgReadable rows) (project : String) (since : Time)
    (scope : Option LimitScope) : ∃ u, Postgres.usageInTx rows project since scope = .ok u := by
  cases scope with
  | none => exact h.usageSince project since
  | some s =>
    rcases h.selectScoped project since s with ⟨u, hu⟩
    exact ⟨u, Traverse.mapError_eq_ok_iff.2 hu⟩

theorem memberText {r : EventRow} (h : PgReadable rows) (hr : r ∈ rows) (key : String) :
    ∃ v, Postgres.memberText r key = .ok v :=
  ⟨_, (Postgres.memberText_eq_ok_iff (h.written r hr) key _).2 ⟨h.castable r hr, rfl⟩⟩

theorem scopeExpr {r : EventRow} (h : PgReadable rows) (hr : r ∈ rows) (s : LimitScope) :
    ∃ v, Postgres.scopeExpr s r = .ok v := by
  cases s with
  | provider v => exact ⟨_, rfl⟩
  | model v => exact ⟨_, rfl⟩
  | name v => exact ⟨_, rfl⟩
  | apiKey v => exact h.memberText hr "api_key_id"
  | customer v => exact h.memberText hr "customer_id"

theorem keyExpr {r : EventRow} (h : PgReadable rows) (hr : r ∈ rows) (k : TimeKey) (d : Dimension) :
    ∃ v, Postgres.keyExpr k d r = .ok v := by
  unfold Postgres.keyExpr
  cases d.storage with
  | column value => exact ⟨_, rfl⟩
  | metadataKey key => exact h.memberText hr key
  | day => exact ⟨_, rfl⟩

theorem filterHit {r : EventRow} (h : PgReadable rows) (hr : r ∈ rows) (q : RollupQuery)
    (fs : List (Dimension × String)) : ∃ b, Postgres.filterHit q r fs = .ok b := by
  induction fs with
  | nil => exact ⟨true, rfl⟩
  | cons f fs ih =>
    rcases h.keyExpr hr q.timeKey f.1 with ⟨v, hv⟩
    unfold Postgres.filterHit
    simp only [hv]
    split_ifs
    · exact ih
    · exact ⟨false, rfl⟩

theorem selects {r : EventRow} (h : PgReadable rows) (hr : r ∈ rows) (q : RollupQuery) :
    ∃ b, Postgres.selects q r = .ok b := by
  unfold Postgres.selects
  split_ifs
  · exact h.filterHit hr q q.filter
  · exact ⟨false, rfl⟩

/-- A rollup of one project can be read, whatever it groups by and filters on. -/
theorem rollup (h : PgReadable rows) (q : RollupQuery) {project : String}
    (hproject : q.project = some project) (hvalid : q.invalid = none) :
    ∃ out, Postgres.rollup rows q = .ok out := by
  rcases Traverse.exists_select (l := rows) fun r hr => h.selects hr q with
    ⟨window, hwindow, hsub, hselected⟩
  have hown : ∀ r ∈ window, r.projectId = project := by
    intro r hr
    have hsel := hselected r hr
    unfold Postgres.selects at hsel
    split_ifs at hsel with hcond
    · rw [hproject] at hcond
      simp only [Option.all_some, Bool.and_eq_true, beq_iff_eq] at hcond
      exact hcond.1.1.1
    · cases hsel
  have hkeys : ∀ r ∈ window, ∃ keys,
      (q.groupBy.mapM fun d => Postgres.keyExpr q.timeKey d r) = .ok keys := fun r hr =>
    Traverse.exists_mapM fun d _ => h.keyExpr (hsub.subset hr) q.timeKey d
  rcases Traverse.exists_tagged hkeys with ⟨pairs, hpairs, hrows⟩
  have hgroup : ∀ g ∈ (Group.groupsBy Prod.fst pairs).map fun g => (g.1, g.2.map Prod.snd),
      ∃ row, Postgres.rollupRow g = .ok row := by
    intro g hg
    have hpart := Group.sublist_of_tagged hrows hg
    have hread := h.sublist (hpart.trans hsub)
    refine ⟨_, (Postgres.rollupRow_eq_ok_iff hread.written _).2 ⟨⟨hread.castable, ?_⟩, rfl⟩⟩
    exact h.groupTotalsFit (hpart.trans hsub) fun r hr => hown r (hpart.subset hr)
  rcases Traverse.exists_mapM hgroup with ⟨out, hout⟩
  have hgroups : Postgres.groups q rows =
      .ok ((Group.groupsBy Prod.fst pairs).map fun g => (g.1, g.2.map Prod.snd)) := by
    unfold Postgres.groups
    simp only [hwindow]
    change (window.mapM fun r => (q.groupBy.mapM fun d => Postgres.keyExpr q.timeKey d r).map
      fun keys => (keys, r)).map _ = _
    rw [hpairs]
    rfl
  refine ⟨out, ?_⟩
  unfold Postgres.rollup
  simp only [hvalid, hgroups, hout]
  rfl

theorem usageSinceScoped (h : PgReadable rows) (project : String) (since : Time) (s : LimitScope) :
    ∃ u, Postgres.usageSinceScoped rows project since s = .ok u := by
  unfold Postgres.usageSinceScoped
  split_ifs
  · have hvalid : (foldQuery project since none).invalid = none := by
      simp [RollupQuery.invalid, foldQuery, MAX_GROUP_BY, List.zipIdx]
    rcases h.rollup (foldQuery project since none) rfl hvalid with ⟨out, hout⟩
    unfold Postgres.usageForScope
    rw [hout]
    exact ⟨_, rfl⟩
  · rcases h.selectScoped project since s with ⟨u, hu⟩
    exact ⟨u, Traverse.mapError_eq_ok_iff.2 hu⟩

theorem usageByScope (h : PgReadable rows) (project : String) (since : Time) (s : LimitScope) :
    ∃ gs, Postgres.usageByScope rows project since s = .ok gs := by
  have hsub : (rows.filter fun r => r.projectId == project && decide (since ≤ r.ts)).Sublist rows :=
    List.filter_sublist
  have hown : ∀ r ∈ rows.filter fun r => r.projectId == project && decide (since ≤ r.ts),
      r.projectId = project := by
    intro r hr
    simpa using (Bool.and_eq_true_iff.1 (List.mem_filter.1 hr).2).1
  rcases Traverse.exists_tagged fun r hr => h.scopeExpr (hsub.subset hr) s with
    ⟨pairs, hpairs, hrows⟩
  have hgroup : ∀ g ∈ (Group.groupsBy Prod.fst pairs).map fun g => (g.1, g.2.map Prod.snd),
      ∃ u, Postgres.scopeGroup g = .ok u := by
    intro g hg
    have hpart := Group.sublist_of_tagged hrows hg
    rcases h.usageCols (hpart.trans hsub) fun r hr => hown r (hpart.subset hr) with ⟨u, hu⟩
    unfold Postgres.scopeGroup
    rw [hu]
    exact ⟨_, rfl⟩
  rcases Traverse.exists_mapM hgroup with ⟨gs, hgs⟩
  have htag : (rows.filter fun r => r.projectId == project && decide (since ≤ r.ts)).mapM
      (Postgres.scopeKeyed s) = .ok pairs := hpairs
  unfold Postgres.usageByScope
  simp only [htag, hgs]
  exact ⟨_, rfl⟩

/-- The verdict of an admission is reached, whatever the rules. -/
theorem admitVerdict (h : PgReadable rows) (revenue : List RevenueEvent) (rules : RuleSet)
    (now : Time) (ev : LlmEvent) :
    ∃ a, Postgres.admitVerdict rows revenue rules now ev = .ok a := by
  have hread := fun k : UsageKey => h.usageInTx ev.projectId (k.1.since now) k.2
  choose u hu using hread
  exact ⟨_, Postgres.admitVerdict_of_reads _ _ _ _ _ fun r _ _ => hu r.usageKey⟩

end PgReadable

/-! ## Runs -/

theorem PgReadsLike.of_rewrites {f : PriceFill} (hat : '\x00' ∉ f.pricedAt.toList) {r r' : EventRow}
    (h : f.Rewrites r r') : PgReadsLike r r' := by
  rcases h with rfl | ⟨-, cost, -, rfl⟩
  · exact .refl r'
  · refine ⟨?_, ?_, rfl, rfl, rfl⟩
    · intro hw m hm
      rw [← Option.mem_some_iff.1 hm]
      apply f.written_stamp
      cases hmeta : r.metadata with
      | none => rfl
      | some m => exact hw m hmeta
    · intro hc m hm
      rw [← Option.mem_some_iff.1 hm]
      apply PriceFill.nulFree_stamp hat
      cases hmeta : r.metadata with
      | none => rfl
      | some m => exact hc m hmeta

/-- The table stays readable with the events of the call added to it, and a fill stamps an
instant. -/
structure Op.PgKeeps (s : Sys.Timed Time PgStore) (l : Time × Op) : Prop where
  readable : PgReadable (s.state.events.rows ++ l.2.events.map (EventRow.ofEvent 0))
  stamped : ∀ f, l.2 = .fillUnpricedCost f → ∃ t, f.pricedAt = fmtTs t

namespace PgReadable

variable {t t' : EventTable} {ev : LlmEvent} {rest : List EventRow}

/-- Storing an event uses up its place among those still to come. -/
theorem insert (h : PgReadable (t.rows ++ EventRow.ofEvent 0 ev :: rest))
    (hins : Postgres.insert t ev = .ok t') : PgReadable (t'.rows ++ rest) := by
  unfold Postgres.insert at hins
  rw [Traverse.ite_error_eq_ok_iff] at hins
  rw [(EventTable.rows_of_insert hins.2).2, List.append_assoc]
  have hsame : ∀ l : List EventRow, List.Forall₂ PgReadsLike l l := fun l =>
    List.forall₂_same.2 fun r _ => PgReadsLike.refl r
  have hrow : PgReadsLike (EventRow.ofEvent 0 ev) (t.nextRow ev) := ⟨id, id, rfl, rfl, rfl⟩
  exact h.congr (List.rel_append (hsame t.rows) (.cons hrow (hsame rest)))

/-- Leaving it out does too. -/
theorem skip {rows : List EventRow} {r : EventRow} (h : PgReadable (rows ++ r :: rest)) :
    PgReadable (rows ++ rest) :=
  h.sublist (List.Sublist.append_left (List.sublist_cons_self r rest) rows)

theorem fill {f : PriceFill} (h : PgReadable t.rows) (hat : '\x00' ∉ f.pricedAt.toList) :
    PgReadable (f.fill t).1.rows := by
  rcases f.filled_fill t with ⟨g, hg, hrew⟩
  rw [hg]
  refine h.congr ?_
  rw [List.forall₂_map_right_iff]
  exact List.forall₂_same.2 fun r hr => .of_rewrites hat (hrew r hr)

/-- Whatever an admission decides, the table stays readable. -/
theorem admitOne (h : PgReadable (t.rows ++ EventRow.ofEvent 0 ev :: rest))
    (revenue : List RevenueEvent) (rules : RuleSet) (now : Time) :
    PgReadable ((Postgres.admitOne t revenue rules now ev).2.rows ++ rest) := by
  unfold Postgres.admitOne
  cases Postgres.admitVerdict t.rows revenue rules now ev with
  | error e => exact h.skip
  | ok a =>
    simp only
    split_ifs
    · cases hins : Postgres.insert t ev with
      | error e => exact h.skip
      | ok t' => exact h.insert hins
    · exact h.skip

theorem batchLoop {limits : RuleSet} {revenue : List RevenueEvent} (items : List (Time × LlmEvent))
    (h : PgReadable (t.rows ++ (items.map Prod.snd).map (EventRow.ofEvent 0))) :
    PgReadable (PgStore.batchLoop limits revenue items t).2.rows := by
  induction items generalizing t with
  | nil =>
    rw [List.map_nil, List.map_nil, List.append_nil] at h
    exact h
  | cons i items ih =>
    rcases i with ⟨now, ev⟩
    unfold PgStore.batchLoop
    exact ih (h.admitOne revenue (limits.list ev.projectId) now)

end PgReadable

theorem map_snd_readings (now : Time) (items : List (ℕ × LlmEvent)) :
    (readings now items).map Prod.snd = items.map Prod.snd := by
  induction items generalizing now with
  | nil => rfl
  | cons i items ih =>
    rcases i with ⟨d, ev⟩
    unfold readings
    rw [List.map_cons, List.map_cons, ih]

/-- Step lemma: a call whose events fit keeps the table readable. -/
theorem pgReadable_step {s s' : Sys.Timed Time PgStore} {l : Time × Op}
    (hstep : Sys.Restrict PgStore.Step Op.PgKeeps s l s') (h : PgReadable s.state.events.rows) :
    PgReadable s'.state.events.rows := by
  rcases hstep with ⟨⟨-, rfl⟩, hkeep, hstamp⟩
  rcases l with ⟨now, op⟩
  cases op with
  | insertEvent ev =>
    unfold PgStore.exec PgStore.insertEvent
    cases hins : Postgres.insert s.state.events ev with
    | error e =>
      simp only [hins]
      exact h
    | ok t =>
      simp only [hins]
      have hnext := PgReadable.insert hkeep hins
      rwa [List.map_nil, List.append_nil] at hnext
  | insertEventChecked ev =>
    have hnext := PgReadable.admitOne hkeep s.state.revenue (s.state.limits.list ev.projectId) now
    rwa [List.map_nil, List.append_nil] at hnext
  | insertEventsChecked items tx =>
    -- each item is checked and inserted in turn; a batch that fails leaves the rows
    have hbatch : PgReadable (PgStore.batchLoop s.state.limits s.state.revenue (readings now items)
        s.state.events).2.rows := by
      apply PgReadable.batchLoop
      rw [map_snd_readings]
      exact hkeep
    unfold PgStore.exec PgStore.insertEventsChecked
    cases tx with
    | beginFails e => exact h
    | ends commit =>
      cases commit with
      | ok u => exact hbatch
      | error e => exact h
  | fillUnpricedCost f =>
    -- a fill writes a stamp, which is readable text
    rcases hstamp f rfl with ⟨t, ht⟩
    refine h.fill ?_
    rw [ht]
    exact not_mem_fmtTs (by decide) (by decide) t
  | askUsage project key => exact h
  | configure limits revenue => exact h

/-- A checked insert over a readable table fails only on what the event itself holds: a text with
U+0000 in a column, or a taken id. -/
theorem PgReadable.checked {t : EventTable} (h : PgReadable t.rows) (revenue : List RevenueEvent)
    (rules : RuleSet) (now : Time) (ev : LlmEvent) :
    (∃ a, (Postgres.admitOne t revenue rules now ev).1 = .ok a) ∨
      ((Postgres.columnTexts ev).any fun s => s.toList.contains '\x00') = true ∧
        (Postgres.admitOne t revenue rules now ev).1 = .error (pgerr .nulInText) ∨
      t.hasId ev.id = true ∧ (Postgres.admitOne t revenue rules now ev).1 =
        .error (.conflict ("event '" ++ ev.id ++ "' already exists")) := by
  rcases h.admitVerdict revenue rules now ev with ⟨a, ha⟩
  unfold Postgres.admitOne
  simp only [ha]
  by_cases hadm : a.admitted = true
  · rw [if_pos hadm]
    unfold Postgres.insert
    by_cases hnul : ((Postgres.columnTexts ev).any fun s => s.toList.contains '\x00') = true
    · rw [if_pos hnul]
      exact .inr (.inl ⟨hnul, rfl⟩)
    · rw [if_neg hnul]
      cases hid : t.hasId ev.id with
      | true =>
        rw [EventTable.insert_of_hasId hid]
        exact .inr (.inr ⟨rfl, rfl⟩)
      | false =>
        left
        unfold EventTable.insert
        rw [dif_neg (by simp [hid])]
        exact ⟨_, rfl⟩
  · rw [if_neg hadm]
    exact .inl ⟨a, rfl⟩

end LightTrack
