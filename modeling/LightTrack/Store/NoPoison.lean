import LightTrack.Store.Breach

/-! # Rows that can be read

One stored row can make a read fail: the cache load refuses a row whose metadata or
token sum has the wrong storage class, and an aggregate whose token sum leaves `i64`
is an error.  A table is `Readable` when no row does; then every read succeeds,
whatever the cache holds.

* `Readable.usageSince`, `Readable.usageSinceScoped`, `Readable.usageByScope`,
  `Readable.cacheUsage` : every usage read succeeds,
* `no_poison_run` : over runs whose stored events keep the table readable, no usage
  read, cache load or admission check ever fails.
-/

namespace LightTrack

/-- The tokens of a project, over all time. -/
def tokensOf (project : String) (rows : List EventRow) : Int :=
  (tokenSums (rows.filter fun r => r.projectId == project)).sum

/-- Every row can be loaded, holds no negative count, and each project's tokens add up to an
`i64`. -/
structure Readable (rows : List EventRow) : Prop where
  loadable : AllLoadable rows
  nonneg : ∀ r ∈ rows, 0 ≤ r.inputTokens ∧ 0 ≤ r.outputTokens
  total_lt : ∀ project, tokensOf project rows < i64Bound

/-- `r'` reads like `r`: it loads if `r` does, and has its project and tokens. -/
structure ReadsLike (r r' : EventRow) : Prop where
  loadable : r.Loadable → r'.Loadable
  project : r'.projectId = r.projectId
  input : r'.inputTokens = r.inputTokens
  output : r'.outputTokens = r.outputTokens

theorem ReadsLike.refl (r : EventRow) : ReadsLike r r := ⟨id, rfl, rfl, rfl⟩

theorem ReadsLike.of_rewrites {f : PriceFill} {r r' : EventRow} (h : f.Rewrites r r') :
    ReadsLike r r' := by
  refine ⟨h.loadable, h.keeps.2.1, ?_, ?_⟩
  · rcases h with rfl | ⟨-, cost, -, rfl⟩
    · rfl
    · rfl
  · rcases h with rfl | ⟨-, cost, -, rfl⟩
    · rfl
    · rfl

theorem tokensOf_append (project : String) (rows rows' : List EventRow) :
    tokensOf project (rows ++ rows') = tokensOf project rows + tokensOf project rows' := by
  unfold tokensOf tokenSums
  rw [List.filter_append, List.map_append, List.sum_append]

theorem tokensOf_eq_of_readsLike {rows rows' : List EventRow}
    (h : List.Forall₂ ReadsLike rows rows') (project : String) :
    tokensOf project rows' = tokensOf project rows := by
  induction h with
  | nil => rfl
  | @cons r r' l l' hr _ ih =>
    have hhead : tokensOf project [r'] = tokensOf project [r] := by
      unfold tokensOf tokenSums
      by_cases hp : r.projectId = project
      · rw [List.filter_cons_of_pos (by simp [hr.project, hp]),
          List.filter_cons_of_pos (by simp [hp])]
        simp [hr.input, hr.output]
      · rw [List.filter_cons_of_neg (by simp [hr.project, hp]),
          List.filter_cons_of_neg (by simp [hp])]
    have hleft := tokensOf_append project [r'] l'
    have hright := tokensOf_append project [r] l
    simp only [List.singleton_append] at hleft hright
    rw [hleft, hright, hhead, ih]

namespace Readable

variable {rows rows' : List EventRow}

/-- Rows that read alike are readable alike. -/
theorem congr (h : Readable rows) (hlike : List.Forall₂ ReadsLike rows rows') :
    Readable rows' := by
  have hback : ∀ r' ∈ rows', ∃ r ∈ rows, ReadsLike r r' := by
    clear h
    induction hlike with
    | nil =>
      intro r' hr'
      simp at hr'
    | cons hr _ ih =>
      intro r' hr'
      rcases List.mem_cons.1 hr' with rfl | hr'
      · exact ⟨_, List.mem_cons_self .., hr⟩
      · rcases ih r' hr' with ⟨r, hmem, hlike⟩
        exact ⟨r, List.mem_cons_of_mem _ hmem, hlike⟩
  refine ⟨?_, ?_, ?_⟩
  · intro r' hr'
    rcases hback r' hr' with ⟨r, hr, hlike⟩
    exact hlike.loadable (h.loadable r hr)
  · intro r' hr'
    rcases hback r' hr' with ⟨r, hr, hlike⟩
    rw [hlike.input, hlike.output]
    exact h.nonneg r hr
  · intro project
    rw [tokensOf_eq_of_readsLike hlike]
    exact h.total_lt project

theorem tokens_nonneg (h : Readable rows) : ∀ n ∈ tokenSums rows, 0 ≤ n := by
  intro n hn
  rcases List.mem_map.1 hn with ⟨r, hr, rfl⟩
  have hpos := h.nonneg r hr
  exact add_nonneg hpos.1 hpos.2

/-- Fewer rows are readable too. -/
theorem sublist (h : Readable rows) (hsub : rows'.Sublist rows) : Readable rows' := by
  have hmem := fun r hr => hsub.subset (a := r) hr
  refine ⟨fun r hr => h.loadable r (hmem r hr), fun r hr => h.nonneg r (hmem r hr), ?_⟩
  intro project
  have hle : tokensOf project rows' ≤ tokensOf project rows := by
    refine List.Sublist.sum_le_sum ((hsub.filter _).map _) ?_
    intro n hn
    rcases List.mem_map.1 hn with ⟨r, hr, rfl⟩
    have hpos := h.nonneg r (List.mem_filter.1 hr).1
    exact add_nonneg hpos.1 hpos.2
  exact hle.trans_lt (h.total_lt project)

/-- The token sum of some rows of one project stays below the bound. -/
theorem sum_lt (h : Readable rows) (project : String) (hsub : rows'.Sublist rows)
    (hproject : ∀ r ∈ rows', r.projectId = project) : (tokenSums rows').sum < i64Bound := by
  have htotal := (h.sublist hsub).total_lt project
  unfold tokensOf at htotal
  rwa [List.filter_eq_self.2 fun r hr => by simp [hproject r hr]] at htotal

/-- The token aggregate of some rows of one project can be read. -/
theorem groupFits (h : Readable rows) (project : String) (hsub : rows'.Sublist rows)
    (hproject : ∀ r ∈ rows', r.projectId = project) : GroupFits rows' := by
  constructor
  · intro r hr
    exact (h.loadable r (hsub.subset hr)).tokens
  · refine partialSumsFit_of_nonneg le_rfl (h.sublist hsub).tokens_nonneg ?_
    rw [zero_add]
    exact h.sum_lt project hsub hproject

/-- Their input and output sums can be read too. -/
theorem sumsFit (h : Readable rows) (project : String) (hsub : rows'.Sublist rows)
    (hproject : ∀ r ∈ rows', r.projectId = project) : SumsFit rows' := by
  have hlt := h.sum_lt project hsub hproject
  have hsplit : (tokenSums rows').sum =
      (rows'.map EventRow.inputTokens).sum + (rows'.map EventRow.outputTokens).sum :=
    List.sum_map_add
  have hin : ∀ n ∈ rows'.map EventRow.inputTokens, 0 ≤ n := by
    intro n hn
    rcases List.mem_map.1 hn with ⟨r, hr, rfl⟩
    exact (h.nonneg r (hsub.subset hr)).1
  have hout : ∀ n ∈ rows'.map EventRow.outputTokens, 0 ≤ n := by
    intro n hn
    rcases List.mem_map.1 hn with ⟨r, hr, rfl⟩
    exact (h.nonneg r (hsub.subset hr)).2
  have hinsum := List.sum_nonneg hin
  have houtsum := List.sum_nonneg hout
  exact ⟨partialSumsFit_of_nonneg le_rfl hin (by omega),
    partialSumsFit_of_nonneg le_rfl hout (by omega)⟩

theorem project_of_inWindow {project : String} {since : Time} {r : EventRow}
    (h : inWindow project since r = true) : r.projectId = project := by
  simpa using (Bool.and_eq_true_iff.1 h).1

/-! ## Every read succeeds -/

theorem usageSince (h : Readable rows) (project : String) (since : Time) :
    ∃ u, LightTrack.usageSince rows project since = .ok u := by
  refine ⟨_, usageCols_of_fits (h.groupFits project List.filter_sublist ?_)⟩
  intro r hr
  exact project_of_inWindow (List.mem_filter.1 hr).2

theorem usageSinceScoped (h : Readable rows) (project : String) (since : Time) (s : LimitScope) :
    ∃ u, LightTrack.usageSinceScoped rows project since s = .ok u := by
  unfold LightTrack.usageSinceScoped
  split_ifs
  · refine ⟨_, (usageForScope_eq_ok_iff rows project since s _).2 ⟨?_, rfl⟩⟩
    intro g hg
    rw [Group.mem_groupsBy hg]
    refine h.sumsFit project (List.filter_sublist.trans List.filter_sublist) ?_
    intro r hr
    exact project_of_inWindow (List.mem_filter.1 (List.mem_filter.1 hr).1).2
  · refine ⟨_, usageCols_of_fits (h.groupFits project List.filter_sublist ?_)⟩
    intro r hr
    exact project_of_inWindow (Bool.and_eq_true_iff.1 (List.mem_filter.1 hr).2).1

/-- Every dimension of a loadable row is a text or NULL. -/
theorem textual_scopeExpr {r : EventRow} (h : r.Loadable) (s : LimitScope) :
    (scopeExpr s r).IsTextual := by
  cases s with
  | provider v => exact .inr ⟨_, rfl⟩
  | model v => exact .inr ⟨_, rfl⟩
  | name v =>
    unfold scopeExpr
    cases r.name with
    | none => exact .inl rfl
    | some n => exact .inr ⟨n, rfl⟩
  | apiKey v => exact h.apiKeyId
  | customer v => exact h.customerId

theorem usageByScope (h : Readable rows) (project : String) (since : Time) (s : LimitScope) :
    ∃ gs, LightTrack.usageByScope rows project since s = .ok gs := by
  have hgroups : ∀ k ∈ ((rows.filter (inWindow project since)).map (scopeExpr s)).dedup,
      ∃ g, scopeGroup (rows.filter (inWindow project since)) s k = .ok g := by
    intro k hk
    rw [List.mem_dedup] at hk
    rcases List.mem_map.1 hk with ⟨r, hr, rfl⟩
    have htext := textual_scopeExpr (h.loadable r (List.mem_filter.1 hr).1) s
    have hfits : GroupFits ((rows.filter (inWindow project since)).filter fun r' =>
        scopeExpr s r' == scopeExpr s r) := by
      refine h.groupFits project (List.filter_sublist.trans List.filter_sublist) ?_
      intro r' hr'
      exact project_of_inWindow (List.mem_filter.1 (List.mem_filter.1 hr').1).2
    unfold scopeGroup
    rw [usageCols_of_fits hfits, SqlValue.getOptString_of_textual htext]
    exact ⟨_, rfl⟩
  rcases Traverse.exists_mapM hgroups with ⟨gs, hgs⟩
  unfold LightTrack.usageByScope
  simp only
  rw [hgs]
  exact ⟨_, rfl⟩

theorem cacheUsage (h : AllLoadable rows) (c : UsageCache) (project : String) (now : Time)
    (key : UsageKey) : ∃ u, (c.usage rows project now key).1 = .ok u := by
  have hload : (rows.filter fun r =>
      decide ((c.buckets (project, key)).seenRowid < r.rowid)).mapM NewRow.fromRow =
      .ok ((rows.filter fun r =>
        decide ((c.buckets (project, key)).seenRowid < r.rowid)).map EventRow.loaded) :=
    Bucket.mapM_fromRow fun r hr => h r (List.mem_filter.1 hr).1
  rw [UsageCache.usage_fst]
  unfold Bucket.usage Bucket.loadNew
  rw [hload]
  exact ⟨_, rfl⟩

end Readable

/-! ## Runs -/

/-- The events a call may store. -/
def Op.events : Op → List LlmEvent
  | .insertEvent ev | .insertEventChecked ev => [ev]
  | .insertEventsChecked items _ => items.map Prod.snd
  | .fillUnpricedCost _ | .askUsage _ _ | .configure _ _ => []

/-- The table stays readable with the events of the call added to it. -/
def Op.KeepsReadable (s : Sys.Timed Time SqliteStore) (l : Time × Op) : Prop :=
  Readable (s.state.events.rows ++ l.2.events.map (EventRow.ofEvent 0))

/-- Storing an event uses up its place among those still to come. -/
theorem Readable.insert {t t' : EventTable} {ev : LlmEvent} {rest : List EventRow}
    (h : Readable (t.rows ++ EventRow.ofEvent 0 ev :: rest)) (hins : t.insert ev = .ok t') :
    Readable (t'.rows ++ rest) := by
  rw [(EventTable.rows_of_insert hins).2, List.append_assoc]
  have hsame : ∀ l : List EventRow, List.Forall₂ ReadsLike l l := fun l =>
    List.forall₂_same.2 fun r _ => ReadsLike.refl r
  have hrow : ReadsLike (EventRow.ofEvent 0 ev) (t.nextRow ev) :=
    ⟨fun hr => ⟨hr.tokens, hr.costSource, hr.apiKeyId, hr.customerId⟩, rfl, rfl, rfl⟩
  exact h.congr (List.rel_append (hsame t.rows) (.cons hrow (hsame rest)))

/-- Leaving it out does too. -/
theorem Readable.skip {rows rest : List EventRow} {r : EventRow} (h : Readable (rows ++ r :: rest)) :
    Readable (rows ++ rest) :=
  h.sublist (List.Sublist.append_left (List.sublist_cons_self r rest) rows)

theorem Readable.fill {t : EventTable} (h : Readable t.rows) (f : PriceFill) :
    Readable (f.fill t).1.rows := by
  rcases f.filled_fill t with ⟨g, hg, hrew⟩
  rw [hg]
  refine h.congr ?_
  rw [List.forall₂_map_right_iff]
  exact List.forall₂_same.2 fun r hr => .of_rewrites (hrew r hr)

/-- Whatever a checked insert decides, the table stays readable. -/
theorem Readable.insertChecked {t : EventTable} {ev : LlmEvent} {rest : List EventRow}
    (h : Readable (t.rows ++ EventRow.ofEvent 0 ev :: rest)) (c : UsageCache) (now : Time)
    (revenue : List RevenueEvent) (rules : RuleSet) :
    Readable ((insertCheckedWithRules revenue rules now ev t c).2.1.rows ++ rest) := by
  unfold insertCheckedWithRules
  simp only
  split
  · exact h.skip
  · split_ifs
    · split
      · exact h.skip
      · next hins => exact h.insert hins
    · exact h.skip

theorem Readable.batchLoop {limits : RuleSet} {revenue : List RevenueEvent}
    (items : List (ℕ × LlmEvent)) (rulesByProject : List (String × RuleSet)) {t : EventTable}
    {c : UsageCache} {now : Time}
    (h : Readable (t.rows ++ (items.map Prod.snd).map (EventRow.ofEvent 0))) :
    Readable (batchLoop limits revenue (readings now items) rulesByProject t c).2.1.rows := by
  induction items generalizing rulesByProject t c now with
  | nil =>
    rw [List.map_nil, List.map_nil, List.append_nil] at h
    exact h
  | cons i items ih =>
    rcases i with ⟨d, ev⟩
    unfold readings LightTrack.batchLoop
    exact ih _ (h.insertChecked c _ revenue _)

/-- Step lemma: a call whose events fit keeps the table readable. -/
theorem readable_step {s s' : Sys.Timed Time SqliteStore} {l : Time × Op}
    (hstep : Sys.Restrict SqliteStore.Step Op.KeepsReadable s l s')
    (h : Readable s.state.events.rows) : Readable s'.state.events.rows := by
  rcases hstep with ⟨⟨-, rfl⟩, hkeep⟩
  rcases l with ⟨now, op⟩
  cases op with
  | insertEvent ev =>
    unfold SqliteStore.exec SqliteStore.insertEvent
    simp only
    split
    · exact h
    · next hins =>
      have hnext := Readable.insert hkeep hins
      rwa [List.map_nil, List.append_nil] at hnext
  | insertEventChecked ev =>
    have hnext := Readable.insertChecked hkeep s.state.cache now s.state.revenue
      (s.state.limits.list ev.projectId)
    rwa [List.map_nil, List.append_nil] at hnext
  | insertEventsChecked items tx =>
    unfold SqliteStore.exec SqliteStore.insertEventsChecked
    simp only
    split
    · exact h
    · split
      · exact Readable.batchLoop items [] hkeep
      · exact h
  | fillUnpricedCost f => exact h.fill f
  | askUsage project key => exact h
  | configure limits revenue => exact h

/-- A checked insert over a readable table fails only on a taken id. -/
theorem Readable.checked {t : EventTable} (h : Readable t.rows) (revenue : List RevenueEvent)
    (rules : RuleSet) (now : Time) (ev : LlmEvent) (c : UsageCache) :
    (∃ a, (insertCheckedWithRules revenue rules now ev t c).1 = .ok a) ∨
      t.hasId ev.id = true ∧ (insertCheckedWithRules revenue rules now ev t c).1 =
        .error (.conflict ("event '" ++ ev.id ++ "' already exists")) := by
  have hread := fun k => cacheUsage h.loadable c ev.projectId now k
  choose u hu using hread
  have hres := admission_of_reads (UsageCache.reader t.rows ev.projectId now) ev now
    (revenueList revenue ev.projectId) rules hu
  unfold insertCheckedWithRules
  simp only [hres]
  split_ifs with hadm
  · cases hid : t.hasId ev.id with
    | true =>
      right
      rw [EventTable.insert_of_hasId hid]
      exact ⟨rfl, rfl⟩
    | false =>
      left
      unfold EventTable.insert
      rw [dif_neg (by simp [hid])]
      exact ⟨_, rfl⟩
  · exact .inl ⟨_, rfl⟩

/-- **No read ever fails** in a run whose stored events keep the table readable: not the window
aggregates of any project, not the cache, whatever it holds, and not an admission check, which
reports at most a taken id. -/
theorem no_poison_run {s s' : Sys.Timed Time SqliteStore} {ls : List (Time × Op)}
    (hinit : Readable s.state.events.rows)
    (hrun : Sys.Run (Sys.Restrict SqliteStore.Step Op.KeepsReadable) s ls s') :
    (∀ project since, ∃ u, usageSince s'.state.events.rows project since = .ok u) ∧
    (∀ project since scope, ∃ u,
      usageSinceScoped s'.state.events.rows project since scope = .ok u) ∧
    (∀ project since scope, ∃ gs, usageByScope s'.state.events.rows project since scope = .ok gs) ∧
    (∀ project key now, ∃ u, (s'.state.askUsage project key now).1 = .ok u) ∧
    ∀ now ev, (∃ a, (s'.state.insertEventChecked now ev).1 = .ok a) ∨
      s'.state.events.hasId ev.id = true ∧ (s'.state.insertEventChecked now ev).1 =
        .error (.conflict ("event '" ++ ev.id ++ "' already exists")) := by
  have hread : Readable s'.state.events.rows :=
    hrun.invariant (I := fun s => Readable s.state.events.rows) hinit
      fun a l b hs => readable_step hs
  refine ⟨?_, ?_, ?_, ?_, ?_⟩
  · exact hread.usageSince
  · exact hread.usageSinceScoped
  · exact hread.usageByScope
  · intro project key now
    exact Readable.cacheUsage hread.loadable s'.state.cache project now key
  · intro now ev
    exact hread.checked s'.state.revenue _ now ev s'.state.cache

theorem no_poison_run_sample :
    let s' := SqliteStore.exec 0 (.insertEventChecked sampleEvent) freshStore.state
    ∃ u, usageSince s'.state.events.rows "p" 0 = .ok u := by
  intro s'
  have hempty : Readable freshStore.state.events.rows := by
    refine ⟨?_, ?_, ?_⟩
    · intro r hr
      exact absurd hr List.not_mem_nil
    · intro r hr
      exact absurd hr List.not_mem_nil
    · intro project
      show (0 : Int) < i64Bound
      decide
  have hkeep : Op.KeepsReadable freshStore (0, .insertEventChecked sampleEvent) := by
    refine ⟨?_, ?_, ?_⟩
    · intro r hr
      rw [List.mem_singleton.1 hr]
      decide +kernel
    · intro r hr
      rw [List.mem_singleton.1 hr]
      decide +kernel
    · intro project
      show tokensOf project [EventRow.ofEvent 0 sampleEvent] < i64Bound
      unfold tokensOf
      by_cases hp : "p" = project
      · subst hp
        decide +kernel
      · rw [List.filter_cons_of_neg (by simpa [sampleEvent, EventRow.ofEvent] using hp)]
        show (0 : Int) < i64Bound
        decide
  exact (no_poison_run hempty (.single ⟨⟨le_rfl, rfl⟩, hkeep⟩)).1 "p" 0

end LightTrack
