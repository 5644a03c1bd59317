import LightTrack.Store.Sqlite

/-! # The usage cache over whole runs

`UsageCache.Holds` says that every bucket accounts for the rows it has seen.  Every
operation keeps it under a clock that does not go backwards, with two provisos:
every stored row can be loaded, and a fill prices no row that a bucket has loaded
and still counts (`Op.CacheSafe`).  Without them a fill leaves buckets stale.

* `cache_exact_run` : in every run whose calls are cache safe, the cache answers
  every question with the plain window scan,
* `cache_stale_after_fill` : a run in which it does not.
-/

namespace LightTrack

/-! ## What one operation keeps -/

/-- Every bucket holds, for the windows that can still be asked at `clock` or later. -/
def UsageCache.Holds (rows : List EventRow) (clock : Time) (c : UsageCache) : Prop :=
  ∀ (project : String) (key : UsageKey),
    (c.buckets (project, key)).Holds rows project key.2 (key.1.since clock)

/-- Every row of the table can be loaded. -/
def AllLoadable (rows : List EventRow) : Prop := ∀ r ∈ rows, r.Loadable

/-- An event whose row can be loaded. -/
def LlmEvent.Loadable (ev : LlmEvent) : Prop := (EventRow.ofEvent 0 ev).Loadable

instance : DecidablePred LlmEvent.Loadable := fun _ => inferInstanceAs (Decidable (EventRow.Loadable _))

theorem LlmEvent.Loadable.nextRow {ev : LlmEvent} (h : ev.Loadable) (t : EventTable) :
    (t.nextRow ev).Loadable :=
  ⟨h.tokens, h.costSource, h.apiKeyId, h.customerId⟩

/-- A fill leaves a table that can be loaded one that can. -/
theorem PriceFill.fill_loadable (f : PriceFill) {t : EventTable} (h : AllLoadable t.rows)
    {r' : EventRow} (hr' : r' ∈ (f.fill t).1.rows) : r'.Loadable := by
  obtain ⟨g, hg, hrew⟩ := f.filled_fill t
  have hmem : r' ∈ t.rows.map g := hg ▸ hr'
  obtain ⟨r, hr, rfl⟩ := List.mem_map.1 hmem
  exact (hrew r hr).loadable (h r hr)

theorem Bucket.Holds.mono {rows : List EventRow} {project : String} {scope : Option LimitScope}
    {start start' : Time} {b : Bucket} (h : b.Holds rows project scope start)
    (hle : start ≤ start') : b.Holds rows project scope start' :=
  ⟨h.seen_le, h.keys_le, h.total_eq, fun s hs => h.kept s (hle.trans hs)⟩

/-- A bucket that has seen nothing holds for every table. -/
theorem Bucket.holds_default (t : EventTable) (project : String) (scope : Option LimitScope)
    (start : Time) : Bucket.default.Holds t.rows project scope start := by
  refine ⟨Nat.zero_le _, by simp [Bucket.default, OrdMap.keys], rfl, fun s _ => ?_⟩
  have hnone : Bucket.seenUsage t.rows project scope 0 s = 0 := by
    have hfalse : Bucket.seenUsage t.rows project scope 0 s =
        usageOf (fun _ => false) EventRow.contribution t.rows := by
      refine usageOf_congr fun r hr => ⟨?_, fun _ => rfl⟩
      simp [Nat.pos_iff_ne_zero.1 (t.rowids_pos r hr)]
    rw [hfalse]
    simp [usageOf]
  exact hnone.symm

/-- A row appended past everything seen changes no account. -/
theorem Bucket.Holds.append {t t' : EventTable} {ev : LlmEvent} {project : String}
    {scope : Option LimitScope} {start : Time} {b : Bucket}
    (h : b.Holds t.rows project scope start) (hins : t.insert ev = .ok t') :
    b.Holds t'.rows project scope start := by
  obtain ⟨-, hrows⟩ := EventTable.rows_of_insert hins
  have hnew : ¬ (t.nextRow ev).rowid ≤ b.seenRowid := by
    show ¬ EventTable.maxRowid t.rows + 1 ≤ b.seenRowid
    have hle := h.seen_le
    omega
  refine ⟨h.seen_le.trans ?_, h.keys_le, h.total_eq, fun s hs => ?_⟩
  · exact EventTable.maxRowid_le fun r hr =>
      EventTable.le_maxRowid (hrows ▸ List.mem_append_left _ hr)
  · rw [h.kept s hs, hrows, Bucket.seenUsage, Bucket.seenUsage, usageOf_append, usageOf_cons]
    simp [hnew]

namespace UsageCache.Holds

variable {t : EventTable} {clock : Time} {c : UsageCache}

theorem mono (h : c.Holds t.rows clock) {clock' : Time} (hle : clock ≤ clock') :
    c.Holds t.rows clock' :=
  fun project key => (h project key).mono (LimitWindow.since_mono key.1 hle)

theorem append (h : c.Holds t.rows clock) {t' : EventTable} {ev : LlmEvent}
    (hins : t.insert ev = .ok t') : c.Holds t'.rows clock :=
  fun project key => (h project key).append hins

/-- A read answers the window scan and keeps the invariant. -/
theorem usage (h : c.Holds t.rows clock) (hload : AllLoadable t.rows) {now : Time}
    (hnow : clock ≤ now) (project : String) (key : UsageKey) :
    (c.usage t.rows project now key).1 = .ok (windowUsage t.rows project key now) ∧
      (c.usage t.rows project now key).2.Holds t.rows now := by
  obtain ⟨b, hb, htotal, hholds, -⟩ :=
    Bucket.usage_exact (h project key) hnow fun r hr _ => hload r hr
  unfold UsageCache.usage
  simp only [hb, htotal, true_and]
  intro project' key'
  by_cases hk : (project', key') = (project, key)
  · obtain ⟨rfl, rfl⟩ := Prod.mk.inj hk
    simp only [Function.update_self]
    exact hholds
  · simp only [Function.update_of_ne hk]
    exact (h project' key').mono (LimitWindow.since_mono key'.1 hnow)

/-- A read leaves its own bucket with every row seen. -/
theorem usage_seen (h : c.Holds t.rows clock) (hload : AllLoadable t.rows) {now : Time}
    (hnow : clock ≤ now) (project : String) (key : UsageKey) :
    ((c.usage t.rows project now key).2.buckets (project, key)).seenRowid =
      EventTable.maxRowid t.rows := by
  obtain ⟨b, hb, -, -, hseen⟩ := Bucket.usage_exact (h project key) hnow fun r hr _ => hload r hr
  unfold UsageCache.usage
  simp only [hb, Function.update_self]
  exact hseen

end UsageCache.Holds

theorem UsageCache.holds_empty (t : EventTable) (clock : Time) :
    UsageCache.empty.Holds t.rows clock :=
  fun project key => Bucket.holds_default t project key.2 (key.1.since clock)

/-- The two facts about the store that make the cache exact. -/
structure Coherent (t : EventTable) (c : UsageCache) (clock : Time) : Prop where
  loadable : AllLoadable t.rows
  holds : c.Holds t.rows clock

theorem Coherent.mono {t : EventTable} {c : UsageCache} {clock clock' : Time}
    (h : Coherent t c clock) (hle : clock ≤ clock') : Coherent t c clock' :=
  ⟨h.loadable, h.holds.mono hle⟩

theorem Coherent.empty {t : EventTable} (h : AllLoadable t.rows) (clock : Time) :
    Coherent t .empty clock :=
  ⟨h, UsageCache.holds_empty t clock⟩

theorem Coherent.insert {t t' : EventTable} {c : UsageCache} {clock : Time} {ev : LlmEvent}
    (h : Coherent t c clock) (hev : ev.Loadable) (hins : t.insert ev = .ok t') :
    Coherent t' c clock := by
  refine ⟨fun r hr => ?_, h.holds.append hins⟩
  rw [(EventTable.rows_of_insert hins).2] at hr
  rcases List.mem_append.1 hr with hr | hr
  · exact h.loadable r hr
  · rw [List.mem_singleton.1 hr]
    exact hev.nextRow t

theorem Coherent.insertCheckedWithRules {t : EventTable} {c : UsageCache} {clock now : Time}
    {ev : LlmEvent} (h : Coherent t c clock) (hnow : clock ≤ now) (hev : ev.Loadable)
    (revenue : List RevenueEvent) (rules : RuleSet) :
    Coherent (insertCheckedWithRules revenue rules now ev t c).2.1
      (insertCheckedWithRules revenue rules now ev t c).2.2 now := by
  have hread : ∀ (k : UsageKey) (c' : UsageCache), Coherent t c' now →
      Coherent t ((UsageCache.reader t.rows ev.projectId now).read k c').2 now :=
    fun k c' hc' => ⟨hc'.loadable, (hc'.holds.usage hc'.loadable le_rfl ev.projectId k).2⟩
  have hadmit := RuleSet.admission_preserves (UsageCache.reader t.rows ev.projectId now) ev now
    (revenueList revenue ev.projectId) hread rules (h.mono hnow)
  unfold LightTrack.insertCheckedWithRules
  simp only
  split
  · exact hadmit
  · split_ifs
    · split
      · exact hadmit
      · next hins => exact hadmit.insert hev hins
    · exact hadmit

theorem Coherent.batchLoop {limits : RuleSet} {revenue : List RevenueEvent}
    (items : List (ℕ × LlmEvent)) (hitems : ∀ i ∈ items, i.2.Loadable)
    (rulesByProject : List (String × RuleSet)) {t : EventTable} {c : UsageCache} {now : Time}
    (h : Coherent t c now) :
    Coherent (batchLoop limits revenue (readings now items) rulesByProject t c).2.1
      (batchLoop limits revenue (readings now items) rulesByProject t c).2.2
      (lastReading now items) := by
  induction items generalizing rulesByProject t c now with
  | nil => exact h
  | cons i items ih =>
    obtain ⟨d, ev⟩ := i
    have hnow : now ≤ now + (d : Int) := Int.le_add_of_nonneg_right (Int.natCast_nonneg d)
    have hrest := fun i hi => hitems i (List.mem_cons_of_mem _ hi)
    unfold readings LightTrack.batchLoop
    exact ih hrest _
      (h.insertCheckedWithRules hnow (hitems _ (List.mem_cons_self ..)) revenue _)

/-! ## Runs -/

/-- Whether a call, made on store `s` at `now`, keeps the cache exact: what it stores can be
loaded, and a fill prices only rows that no bucket counting them has loaded yet. -/
def Op.CacheSafe (s : Sys.Timed Time SqliteStore) (l : Time × Op) : Prop :=
  match l.2 with
  | .insertEvent ev | .insertEventChecked ev => ev.Loadable
  | .insertEventsChecked items _ => ∀ i ∈ items, i.2.Loadable
  | .fillUnpricedCost f =>
    ∀ (project : String) (key : UsageKey), ∀ r ∈ s.state.events.rows,
      ∀ r' ∈ (f.fill s.state.events).1.rows, r'.rowid = r.rowid → r'.costUsd ≠ r.costUsd →
        inKey project key.2 r = true → key.1.since l.1 ≤ r.windowTs →
          (s.state.cache.buckets (project, key)).seenRowid < r.rowid
  | .askUsage _ _ | .configure _ _ => True

theorem le_lastReading (items : List (ℕ × LlmEvent)) (now : Time) :
    now ≤ lastReading now items := by
  induction items generalizing now with
  | nil => exact le_rfl
  | cons i items ih =>
    exact (Int.le_add_of_nonneg_right (Int.natCast_nonneg i.1)).trans (ih _)

/-- The invariant of a run whose calls are cache safe. -/
def SqliteStore.CacheInv (s : Sys.Timed Time SqliteStore) : Prop :=
  Coherent s.state.events s.state.cache s.clock

/-- Step lemma: one case for each call. -/
theorem SqliteStore.cacheInv_step {s s' : Sys.Timed Time SqliteStore} {l : Time × Op}
    (hstep : Sys.Restrict SqliteStore.Step Op.CacheSafe s l s') (h : SqliteStore.CacheInv s) :
    SqliteStore.CacheInv s' := by
  obtain ⟨⟨hnow, rfl⟩, hsafe⟩ := hstep
  obtain ⟨now, op⟩ := l
  have hclock : Coherent s.state.events s.state.cache now := h.mono hnow
  cases op with
  | insertEvent ev =>
    unfold CacheInv exec insertEvent
    simp only
    split
    · exact hclock
    · next hins => exact hclock.insert hsafe hins
  | insertEventChecked ev =>
    exact hclock.insertCheckedWithRules le_rfl hsafe s.state.revenue _
  | insertEventsChecked items tx =>
    unfold CacheInv exec insertEventsChecked
    simp only
    split
    · exact hclock.mono (le_lastReading items now)
    · split
      · exact hclock.batchLoop items hsafe []
      · exact .empty h.loadable _
  | fillUnpricedCost f =>
    exact ⟨fun r' hr' => f.fill_loadable hclock.loadable hr', fun project key =>
      (hclock.holds project key).fill f (hsafe project key)⟩
  | askUsage project key =>
    exact ⟨hclock.loadable, (hclock.holds.usage hclock.loadable le_rfl project key).2⟩
  | configure limits revenue => exact hclock

theorem SqliteStore.cacheInv_init {s : Sys.Timed Time SqliteStore} (hinit : SqliteStore.Init s)
    (hload : AllLoadable s.state.events.rows) : SqliteStore.CacheInv s := by
  unfold SqliteStore.CacheInv
  rw [hinit]
  exact .empty hload _

/-- **The cache is exact over cache-safe runs.** From any store just opened whose rows can be
loaded, under a clock that does not go backwards, every question to the cache is answered with
the plain window scan. -/
theorem cache_exact_run {s s' : Sys.Timed Time SqliteStore} {ls : List (Time × Op)}
    (hinit : SqliteStore.Init s) (hload : AllLoadable s.state.events.rows)
    (hrun : Sys.Run (Sys.Restrict SqliteStore.Step Op.CacheSafe) s ls s')
    (project : String) (key : UsageKey) (now : Time) (hnow : s'.clock ≤ now) :
    (s'.state.cache.usage s'.state.events.rows project now key).1 =
      .ok (windowUsage s'.state.events.rows project key now) := by
  have hinv : SqliteStore.CacheInv s' :=
    hrun.invariant (SqliteStore.cacheInv_init hinit hload) fun a l b hs =>
      SqliteStore.cacheInv_step hs
  exact (hinv.holds.usage hinv.loadable hnow project key).1

/-! ## A store with one rule -/

/-- A fresh store whose project `p` only watches its daily spend. -/
def watchedStore : Sys.Timed Time SqliteStore where
  clock := 0
  state :=
    { events := .empty, limits := ⟨[sampleCap "a" .alert none], by simp⟩, revenue := [], cache := .empty }

theorem cache_exact_run_sample :
    let l : Time × Op := (0, .insertEventChecked sampleEvent)
    let s' := SqliteStore.exec l.1 l.2 watchedStore.state
    (s'.state.cache.usage s'.state.events.rows "p" 0 (.day, none)).1 =
      .ok (windowUsage s'.state.events.rows "p" (.day, none) 0) := by
  refine cache_exact_run (s := watchedStore) rfl (fun r hr => ?_)
    (.single ⟨⟨le_rfl, rfl⟩, ?_⟩) "p" (.day, none) 0 le_rfl
  · exact absurd hr List.not_mem_nil
  · show sampleEvent.Loadable
    decide +kernel

/-- A call that has no price yet. -/
def unpricedSample : LlmEvent := { sampleEvent with id := "e0", costUsd := none }

/-- A fill of everything `gpt-4o` left unpriced, at one dollar per input token. -/
def sampleFill : PriceFill where
  provider := "openai"
  model := "gpt-4o"
  book := { entries := [("openai/gpt-4o", { inputPerMtok := 1000000, outputPerMtok := 0 })] }
  pricedAt := "1970-01-01T00:00:00.000000000Z"
  page := 100

/-- **A fill leaves the cache stale.** A bucket loads an unpriced row, the row is priced in place,
and the next question still counts it as unpriced. -/
theorem cache_stale_after_fill :
    ∃ (ls : List (Time × Op)) (s' : Sys.Timed Time SqliteStore),
      SqliteStore.Init watchedStore ∧ Sys.Run SqliteStore.Step watchedStore ls s' ∧
        (s'.state.cache.usage s'.state.events.rows "p" s'.clock (.day, none)).1 ≠
          .ok (windowUsage s'.state.events.rows "p" (.day, none) s'.clock) := by
  refine ⟨_, _, rfl, .snoc (.snoc (.single
      (l := (0, .insertEventChecked unpricedSample)) ⟨le_rfl, rfl⟩)
      (l := (1, .insertEventChecked { sampleEvent with ts := 1, receivedAt := 1 })) ⟨?_, rfl⟩)
      (l := (2, .fillUnpricedCost sampleFill)) ⟨?_, rfl⟩, ?_⟩
  · decide
  · decide
  · decide +kernel

end LightTrack
