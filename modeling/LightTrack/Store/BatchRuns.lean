import LightTrack.Store.CacheRuns

/-! # Batches

A batch whose transaction commits is its items inserted one at a time.  A batch whose
commit fails leaves the tables alone and a cache that has forgotten everything: such
a store answers, now and after any further calls, as if the batch had never been
submitted, provided the cache was exact before.

* `insertEventsChecked_eq_insertEach` : a committed batch, from any store,
* `Twin` : two stores that differ in how far their exact caches have loaded,
* `batch_eq_sequential_run` : both facts over cache-safe runs,
* `failed_commit_shows` : after a fill, a failed commit changes later answers.
-/

namespace LightTrack

/-! ## A committed batch -/

/-- The items of a batch, each inserted by itself at its own clock reading. -/
def SqliteStore.insertEach (s : SqliteStore) :
    List (Time × LlmEvent) → List (Except StoreError Admission) × SqliteStore
  | [] => ([], s)
  | (now, ev) :: items =>
    let (res, s) := s.insertEventChecked now ev
    let (out, s) := s.insertEach items
    (res :: out, s)

/-- The rules read so far are the rules of their project. -/
def RulesRead (limits : RuleSet) (rulesByProject : List (String × RuleSet)) : Prop :=
  ∀ (project : String) (rules : RuleSet),
    rulesByProject.lookup project = some rules → rules = limits.list project

theorem RulesRead.cons {limits : RuleSet} {rulesByProject : List (String × RuleSet)}
    (h : RulesRead limits rulesByProject) (project : String) :
    RulesRead limits ((project, limits.list project) :: rulesByProject) := by
  intro p rules hlook
  rw [lookup_cons_ite] at hlook
  split_ifs at hlook with hp
  · rw [hp, ← Option.some.inj hlook]
  · exact h p rules hlook

theorem batchLoop_eq_insertEach (items : List (Time × LlmEvent))
    (s : SqliteStore) {rulesByProject : List (String × RuleSet)}
    (h : RulesRead s.limits rulesByProject) :
    (batchLoop s.limits s.revenue items rulesByProject s.events s.cache).1 =
        (s.insertEach items).1 ∧
      (s.insertEach items).2 =
        { s with
          events :=
            (batchLoop s.limits s.revenue items rulesByProject s.events s.cache).2.1
          cache :=
            (batchLoop s.limits s.revenue items rulesByProject s.events s.cache).2.2 } := by
  induction items generalizing s rulesByProject with
  | nil => exact ⟨rfl, rfl⟩
  | cons item items ih =>
    obtain ⟨now, ev⟩ := item
    unfold batchLoop SqliteStore.insertEach
    cases hlook : rulesByProject.lookup ev.projectId with
    | some rules =>
      obtain rfl := h _ _ hlook
      obtain ⟨hout, hstore⟩ := ih (s.insertEventChecked now ev).2 h
      exact ⟨congrArg (_ :: ·) hout, hstore⟩
    | none =>
      obtain ⟨hout, hstore⟩ :=
        ih (s.insertEventChecked now ev).2 (h.cons ev.projectId)
      exact ⟨congrArg (_ :: ·) hout, hstore⟩

/-- **A batch that commits is its items inserted one at a time**, from any store: the same result
for every item, and the same store. -/
theorem insertEventsChecked_eq_insertEach (s : SqliteStore) (items : List (Time × LlmEvent)) :
    s.insertEventsChecked items (.ends (.ok ())) = s.insertEach items := by
  have hread : RulesRead s.limits [] := fun _ _ h => by simp at h
  obtain ⟨hout, hstore⟩ := batchLoop_eq_insertEach items s hread
  exact Prod.ext hout hstore.symm

/-! ## Two caches over the same tables -/

/-- Exact caches over one table, the second of which has loaded no more than the first. -/
structure TwinCaches (t : EventTable) (now : Time) (c c' : UsageCache) : Prop where
  exact : Coherent t c now
  exact' : Coherent t c' now
  seen_le : ∀ k, (c'.buckets k).seenRowid ≤ (c.buckets k).seenRowid

theorem TwinCaches.mono {t : EventTable} {now now' : Time} {c c' : UsageCache}
    (h : TwinCaches t now c c') (hle : now ≤ now') : TwinCaches t now' c c' :=
  ⟨h.exact.mono hle, h.exact'.mono hle, h.seen_le⟩

/-- A read has one answer, and the caches stay twins. -/
theorem TwinCaches.usage {t : EventTable} {now : Time} {c c' : UsageCache}
    (h : TwinCaches t now c c') (project : String) (key : UsageKey) :
    (c.usage t.rows project now key).1 = (c'.usage t.rows project now key).1 ∧
      TwinCaches t now (c.usage t.rows project now key).2
        (c'.usage t.rows project now key).2 := by
  obtain ⟨hans, hholds⟩ := h.exact.holds.usage h.exact.loadable le_rfl project key
  obtain ⟨hans', hholds'⟩ := h.exact'.holds.usage h.exact'.loadable le_rfl project key
  refine ⟨hans.trans hans'.symm, ⟨h.exact.loadable, hholds⟩, ⟨h.exact'.loadable, hholds'⟩,
    fun k => ?_⟩
  by_cases hk : k = (project, key)
  · subst hk
    rw [h.exact.holds.usage_seen h.exact.loadable le_rfl,
      h.exact'.holds.usage_seen h.exact'.loadable le_rfl]
  · rw [UsageCache.usage_buckets_of_ne hk, UsageCache.usage_buckets_of_ne hk]
    exact h.seen_le k

theorem TwinCaches.insertCheckedWithRules {t : EventTable} {now : Time} {c c' : UsageCache}
    (h : TwinCaches t now c c') {ev : LlmEvent} (hev : ev.Loadable) (revenue : List RevenueEvent)
    (rules : RuleSet) :
    (insertCheckedWithRules revenue rules now ev t c).1 =
        (insertCheckedWithRules revenue rules now ev t c').1 ∧
      (insertCheckedWithRules revenue rules now ev t c).2.1 =
        (insertCheckedWithRules revenue rules now ev t c').2.1 ∧
      TwinCaches (insertCheckedWithRules revenue rules now ev t c).2.1 now
        (insertCheckedWithRules revenue rules now ev t c).2.2
        (insertCheckedWithRules revenue rules now ev t c').2.2 := by
  obtain ⟨hres, hrel⟩ := RuleSet.admission_rel (UsageCache.reader t.rows ev.projectId now) ev now
    (revenueList revenue ev.projectId) (UsageCache.reader t.rows ev.projectId now)
    (fun k a b hab => hab.usage ev.projectId k) rules h
  unfold LightTrack.insertCheckedWithRules
  simp only [← hres]
  split
  · exact ⟨rfl, rfl, hrel⟩
  · split_ifs
    · split
      · exact ⟨rfl, rfl, hrel⟩
      · next hins =>
        exact ⟨rfl, rfl, hrel.exact.insert hev hins, hrel.exact'.insert hev hins, hrel.seen_le⟩
    · exact ⟨rfl, rfl, hrel⟩

theorem TwinCaches.batchLoop (limits : RuleSet) (revenue : List RevenueEvent)
    (items : List (ℕ × LlmEvent)) (hitems : ∀ i ∈ items, i.2.Loadable)
    (rulesByProject : List (String × RuleSet)) {t : EventTable} {now : Time} {c c' : UsageCache}
    (h : TwinCaches t now c c') :
    (batchLoop limits revenue (readings now items) rulesByProject t c).2.1 =
        (batchLoop limits revenue (readings now items) rulesByProject t c').2.1 ∧
      TwinCaches (batchLoop limits revenue (readings now items) rulesByProject t c).2.1
        (lastReading now items)
        (batchLoop limits revenue (readings now items) rulesByProject t c).2.2
        (batchLoop limits revenue (readings now items) rulesByProject t c').2.2 := by
  induction items generalizing rulesByProject t now c c' with
  | nil => exact ⟨rfl, h⟩
  | cons i items ih =>
    obtain ⟨d, ev⟩ := i
    have hnow : now ≤ now + (d : Int) := Int.le_add_of_nonneg_right (Int.natCast_nonneg d)
    have hrest := fun i hi => hitems i (List.mem_cons_of_mem _ hi)
    unfold readings LightTrack.batchLoop
    cases rulesByProject.lookup ev.projectId with
    | some rules =>
      obtain ⟨-, htable, htwin⟩ := (h.mono hnow).insertCheckedWithRules
        (hitems _ (List.mem_cons_self ..)) revenue rules
      simp only [← htable]
      exact ih hrest _ htwin
    | none =>
      obtain ⟨-, htable, htwin⟩ := (h.mono hnow).insertCheckedWithRules
        (hitems _ (List.mem_cons_self ..)) revenue (limits.list ev.projectId)
      simp only [← htable]
      exact ih hrest _ htwin

/-- Stores with the same clock and tables whose caches are twins. -/
structure Twin (s s' : Sys.Timed Time SqliteStore) : Prop where
  clock : s'.clock = s.clock
  events : s'.state.events = s.state.events
  limits : s'.state.limits = s.state.limits
  revenue : s'.state.revenue = s.state.revenue
  caches : TwinCaches s.state.events s.clock s.state.cache s'.state.cache

/-- Step lemma: twins stay twins under the same cache-safe call. -/
theorem Twin.step {s s' t : Sys.Timed Time SqliteStore} {l : Time × Op} (h : Twin s t)
    (hstep : Sys.Restrict SqliteStore.Step Op.CacheSafe s l s') :
    ∃ t', Sys.Restrict SqliteStore.Step Op.CacheSafe t l t' ∧ Twin s' t' := by
  obtain ⟨⟨hnow, rfl⟩, hsafe⟩ := hstep
  obtain ⟨now, op⟩ := l
  obtain ⟨tclock, tevents, tlimits, trevenue, tcache⟩ := t
  obtain ⟨rfl, rfl, rfl, rfl, hcaches⟩ := h
  -- time passes for both caches alike
  have htwin := hcaches.mono hnow
  refine ⟨SqliteStore.exec now op ⟨s.state.events, s.state.limits, s.state.revenue, tcache⟩,
    ⟨⟨hnow, rfl⟩, ?_⟩, ?_⟩
  · -- the call is safe for the second cache too: it has seen no more than the first
    cases op with
    | fillUnpricedCost f =>
      intro project key r hr r' hr' hrowid hcost hin hwin
      exact lt_of_le_of_lt (hcaches.seen_le _) (hsafe project key r hr r' hr' hrowid hcost hin hwin)
    | _ => exact hsafe
  · cases op with
    | insertEvent ev =>
      unfold SqliteStore.exec SqliteStore.insertEvent
      simp only
      split
      · exact ⟨rfl, rfl, rfl, rfl, htwin⟩
      · next hins =>
        exact ⟨rfl, rfl, rfl, rfl, htwin.exact.insert hsafe hins, htwin.exact'.insert hsafe hins,
          htwin.seen_le⟩
    | insertEventChecked ev =>
      obtain ⟨-, htable, hnext⟩ := htwin.insertCheckedWithRules hsafe s.state.revenue
        (s.state.limits.list ev.projectId)
      exact ⟨rfl, htable.symm, rfl, rfl, hnext⟩
    | insertEventsChecked items tx =>
      have hlast := htwin.mono (le_lastReading items now)
      cases tx with
      | beginFails e => exact ⟨rfl, rfl, rfl, rfl, hlast⟩
      | ends commit =>
        cases commit with
        | ok _ =>
          obtain ⟨htable, hnext⟩ := htwin.batchLoop s.state.limits s.state.revenue
            items hsafe []
          exact ⟨rfl, htable.symm, rfl, rfl, hnext⟩
        | error e =>
          -- a failed commit empties both caches
          exact ⟨rfl, rfl, rfl, rfl, .empty hlast.exact.loadable _, .empty hlast.exact.loadable _,
            fun _ => le_rfl⟩
    | fillUnpricedCost f =>
      have hfill : ∀ {c : UsageCache}, Coherent s.state.events c now →
          (∀ k, (c.buckets k).seenRowid ≤ (s.state.cache.buckets k).seenRowid) →
          Coherent (f.fill s.state.events).1 c now := fun {c} hc hseen =>
        ⟨fun r' hr' => f.fill_loadable hc.loadable hr', fun project key =>
          (hc.holds project key).fill f fun r hr r' hr' hrowid hcost hin hwin =>
            lt_of_le_of_lt (hseen _) (hsafe project key r hr r' hr' hrowid hcost hin hwin)⟩
      exact ⟨rfl, rfl, rfl, rfl, hfill htwin.exact fun _ => le_rfl, hfill htwin.exact' htwin.seen_le,
        htwin.seen_le⟩
    | askUsage project key =>
      obtain ⟨-, hnext⟩ := htwin.usage project key
      exact ⟨rfl, rfl, rfl, rfl, hnext⟩
    | configure limits revenue => exact ⟨rfl, rfl, rfl, rfl, htwin⟩

/-! ## Over runs -/

end LightTrack
