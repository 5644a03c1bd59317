import LightTrack.Postgres.Admission
import LightTrack.Store.CacheRuns

/-! # Gate, ledger and the other backend

What the Postgres gate charges a rule for, against what the same store reports for the
rule and what the SQLite gate decides on the same rows.

* `sqliteVerdict_eq_iff` : when the SQLite gate decides alike,
* `gate_agrees_iff` : when all of it agrees.
-/

namespace LightTrack

/-- A set of stored events, with the table that holds their rows. -/
structure StoredEvents where
  events : List (ℕ × LlmEvent)
  table : EventTable
  rows_eq : table.rows = events.map storedRow
  /-- Metadata is what `serde_json` can hold. -/
  written : ∀ p ∈ events, p.2.metadata.written = true

theorem StoredEvents.row_written (S : StoredEvents) :
    ∀ p ∈ S.events, (storedRow p).Written := by
  intro p hp m hm
  unfold storedRow EventRow.ofEvent at hm
  simp only at hm
  cases hnull : p.2.metadata.isNull with
  | true =>
    rw [hnull, if_pos rfl] at hm
    cases hm
  | false =>
    rw [hnull, if_neg Bool.false_ne_true, Option.mem_some_iff] at hm
    rw [← hm]
    exact S.written p hp

/-! ## The SQLite gate -/

/-- What the SQLite gate decides, with a fresh cache over the rows. -/
def sqliteVerdict (t : EventTable) (revenue : List RevenueEvent) (rules : RuleSet) (now : Time)
    (ev : LlmEvent) : Except StoreError Admission :=
  (rules.admission (UsageCache.reader t.rows ev.projectId now) ev now
    (revenueList revenue ev.projectId) .empty).1

/-- The events SQLite counts for a rule that does not apply to them: an array or an object that
is written as the value. -/
def sqliteExtra (evs : List (ℕ × LlmEvent)) (project : String) (since : Time)
    (scope : Option LimitScope) : List (ℕ × LlmEvent) :=
  evs.filter fun p => inWindow project since (storedRow p) && scope.any fun s => s.compositeHit p

/-- Whether these events leave the figure the rule measures, and its evidence, as they are. -/
def SqliteAlike (evs : List (ℕ × LlmEvent)) (project : String) (now : Time) (r : LimitRule) : Prop :=
  match r.metric with
  | .tokens => ((sqliteExtra evs project (r.window.since now) r.scope).map fun p =>
      (eventContribution p.2).tokens).sum = 0
  | _ => sqliteExtra evs project (r.window.since now) r.scope = []

/-- On a row, SQLite matches what the matcher does, and the composite members. -/
theorem matches_storedRow (s : LimitScope) (p : ℕ × LlmEvent) :
    s.matches (storedRow p).scopeDims = (s.matches p.2.scopeDims || s.compositeHit p) := by
  have hmember : ∀ key v, ((jsonExtract (storedRow p).metadata key).asText == some v) =
      (p.2.metadata.getStr key == some v ||
        (p.2.metadata.get key).any fun j => j.isComposite && j.render == v) := by
    intro key v
    have htext : (jsonExtract (storedRow p).metadata key).asText = some v ↔
        jsonExtract (storedRow p).metadata key = .text v := by
      cases jsonExtract (storedRow p).metadata key <;> simp [SqlValue.asText]
    rw [Bool.eq_iff_iff, beq_iff_eq, htext, member_eq_text_iff, Bool.or_eq_true, beq_iff_eq]
  cases s with
  | provider v => exact (Bool.or_false _).symm
  | model v => exact (Bool.or_false _).symm
  | name v => exact (Bool.or_false _).symm
  | apiKey v => exact hmember "api_key_id" v
  | customer v => exact hmember "customer_id" v

theorem usageOf_or {α : Type*} {a b : α → Bool} {contrib : α → Usage} {l : List α}
    (h : ∀ x, a x = true → b x = false) :
    usageOf (fun x => a x || b x) contrib l = usageOf a contrib l + usageOf b contrib l := by
  induction l with
  | nil => simp
  | cons x l ih =>
    rw [usageOf_cons, usageOf_cons, usageOf_cons, ih]
    cases ha : a x with
    | true =>
      rw [h x ha]
      simp [add_assoc]
    | false =>
      cases b x <;> simp [add_left_comm]

/-- **What SQLite reads for a rule**: its usage, and what it counts besides. -/
theorem windowUsage_storedRow {evs : List (ℕ × LlmEvent)}
    (h : ∀ p ∈ evs, (storedRow p).TokensFit) (project : String) (key : UsageKey) (now : Time) :
    windowUsage (evs.map storedRow) project key now =
      ruleUsage evs project (key.1.since now) key.2 +
        ((sqliteExtra evs project (key.1.since now) key.2).map fun p =>
          eventContribution p.2).sum := by
  let extra : ℕ × LlmEvent → Bool := fun p =>
    inWindow project (key.1.since now) (storedRow p) && key.2.any fun s => s.compositeHit p
  -- a row that is charged to the rule is not counted a second time
  have hdisjoint : ∀ p, chargedToRule project (key.1.since now) key.2 p = true → extra p = false := by
    intro p hp
    rcases Bool.and_eq_true_iff.1 hp with ⟨-, hmatch⟩
    simp only [extra]
    cases hscope : key.2 with
    | none => simp
    | some s =>
      cases hcomp : s.compositeHit p with
      | false => simp [hcomp]
      | true =>
        rw [hscope, scopeMatches_some, not_matches_of_compositeHit hcomp] at hmatch
        cases hmatch
  have hkeep : ∀ p, (inKey project key.2 (storedRow p) &&
      decide (key.1.since now ≤ (storedRow p).windowTs)) =
      (chargedToRule project (key.1.since now) key.2 p || extra p) := by
    intro p
    -- the stored row matches as its event does, or as a composite of it
    have hrow : scopeMatches key.2 (storedRow p).scopeDims =
        (scopeMatches key.2 p.2.scopeDims || key.2.any fun s => s.compositeHit p) := by
      cases key.2 with
      | none => rfl
      | some s => exact matches_storedRow s p
    have hwin : (inKey project key.2 (storedRow p) &&
        decide (key.1.since now ≤ (storedRow p).windowTs)) =
        (inWindow project (key.1.since now) (storedRow p) &&
          scopeMatches key.2 (storedRow p).scopeDims) := by
      unfold inKey inWindow
      exact Bool.and_right_comm _ _ _
    rw [hwin, hrow, Bool.and_or_distrib_left]
    rfl
  have hsum : ((sqliteExtra evs project (key.1.since now) key.2).map fun p =>
      eventContribution p.2).sum = usageOf extra (fun p => eventContribution p.2) evs := rfl
  unfold windowUsage ruleUsage
  rw [usageOf_map, hsum, ← usageOf_or hdisjoint]
  refine usageOf_congr ?_
  intro p hp
  refine ⟨hkeep p, ?_⟩
  intro _
  exact contribution_of_fit (h p hp)

/-- Contributions add up to at least as many calls as unpriced ones. -/
theorem sum_contributions_calls (l : List (ℕ × LlmEvent)) :
    (l.map fun p => eventContribution p.2).sum.calls = l.length ∧
      0 ≤ (l.map fun p => eventContribution p.2).sum.unpricedCalls ∧
        (l.map fun p => eventContribution p.2).sum.unpricedCalls ≤ l.length := by
  induction l with
  | nil => simp
  | cons p l ih =>
    have hone : (eventContribution p.2).calls = 1 := rfl
    have hunpriced : (eventContribution p.2).unpricedCalls = 0 ∨
        (eventContribution p.2).unpricedCalls = 1 := by
      unfold eventContribution
      cases p.2.costUsd <;> simp
    simp only [List.map_cons, List.sum_cons, Usage.add_calls, Usage.add_unpricedCalls,
      List.length_cons, hone]
    push_cast
    omega

theorem sum_contributions_tokens (l : List (ℕ × LlmEvent)) :
    (l.map fun p => eventContribution p.2).sum.tokens =
      (l.map fun p => (eventContribution p.2).tokens).sum := by
  induction l with
  | nil => rfl
  | cons p l ih => rw [List.map_cons, List.sum_cons, Usage.add_tokens, ih, List.map_cons,
      List.sum_cons]

/-- A status depends on the usage through the figure of its metric, and on its evidence if that is
the cost. -/
theorem ruleStatus_eq_iff (ev : LlmEvent) (now : Time) (resolve : LimitRule → Resolved)
    (u v : Usage) (r : LimitRule) :
    ruleStatus ev now resolve u r = ruleStatus ev now resolve v r ↔
      u.metricValue r.metric = v.metricValue r.metric ∧
        (r.metric = .costUsd → u.costEvidence = v.costEvidence) := by
  constructor
  · intro h
    have hcurrent := congrArg LimitStatus.current h
    have hevidence := congrArg LimitStatus.costEvidence h
    refine ⟨hcurrent, ?_⟩
    intro hmetric
    change (if r.metric = .costUsd then some u.costEvidence else none) =
      (if r.metric = .costUsd then some v.costEvidence else none) at hevidence
    rw [if_pos hmetric, if_pos hmetric] at hevidence
    exact Option.some.inj hevidence
  · rintro ⟨hvalue, hevidence⟩
    have hsome : (if r.metric = .costUsd then some u.costEvidence else none) =
        (if r.metric = .costUsd then some v.costEvidence else none) := by
      split_ifs with hmetric
      · rw [hevidence hmetric]
      · rfl
    unfold ruleStatus evaluateRuleResolvedAt
    simp only [hvalue, hsome]

/-- Whether events counted besides show in the status of a rule. -/
theorem ruleStatus_add_iff (ev : LlmEvent) (now : Time) (resolve : LimitRule → Resolved)
    (r : LimitRule) (charged extra : List (ℕ × LlmEvent)) :
    ruleStatus ev now resolve
        ((charged.map fun p => eventContribution p.2).sum.plus (eventContribution ev)) r =
      ruleStatus ev now resolve
        (((charged.map fun p => eventContribution p.2).sum +
          (extra.map fun p => eventContribution p.2).sum).plus (eventContribution ev)) r ↔
      match r.metric with
      | .tokens => (extra.map fun p => (eventContribution p.2).tokens).sum = 0
      | _ => extra = [] := by
  have hcharged := sum_contributions_calls charged
  have hextra := sum_contributions_calls extra
  have hown := sum_contributions_calls [(0, ev)]
  simp only [List.map_cons, List.map_nil, List.sum_cons, List.sum_nil, add_zero,
    List.length_cons, List.length_nil] at hown
  have htokens := sum_contributions_tokens extra
  generalize (charged.map fun p => eventContribution p.2).sum = u at hcharged ⊢
  rw [ruleStatus_eq_iff, Usage.plus_eq_add, Usage.plus_eq_add]
  cases hmetric : r.metric with
  | costUsd =>
    simp only
    constructor
    · -- the evidence tells the calls apart
      rintro ⟨-, hevidence⟩
      have hev := hevidence trivial
      have hpriced := congrArg CostEvidence.pricedCalls hev
      have hunpriced := congrArg CostEvidence.unpricedCalls hev
      simp only [Usage.costEvidence, Usage.add_calls, Usage.add_unpricedCalls] at hpriced hunpriced
      rw [← List.length_eq_zero_iff]
      omega
    · rintro rfl
      simp
  | calls =>
    simp only [Usage.metricValue, Usage.add_calls, reduceCtorEq, false_implies, and_true]
    constructor
    · intro h
      have hcalls : u.calls + (eventContribution ev).calls =
          u.calls + (extra.map fun p => eventContribution p.2).sum.calls +
            (eventContribution ev).calls := by
        exact_mod_cast h
      rw [← List.length_eq_zero_iff]
      omega
    · rintro rfl
      simp
  | tokens =>
    have hcancel : ∀ a b t : Int, a + t = a + b + t → b = 0 := by
      intro a b t h
      omega
    simp only [Usage.metricValue, Usage.add_tokens, reduceCtorEq, false_implies, and_true]
    rw [← htokens]
    constructor
    · intro h
      have htok : u.tokens + (eventContribution ev).tokens =
          u.tokens + (extra.map fun p => eventContribution p.2).sum.tokens +
            (eventContribution ev).tokens := by
        exact_mod_cast h
      exact hcancel _ _ _ htok
    · intro h
      rw [h, add_zero]

/-- A row the cache cannot load makes every read of a fresh cache fail. -/
theorem fresh_usage_error {t : EventTable} (h : ¬ AllLoadable t.rows) (project : String)
    (now : Time) (key : UsageKey) : ∃ e, (UsageCache.empty.usage t.rows project now key).1 = .error e := by
  unfold AllLoadable at h
  push Not at h
  rcases h with ⟨r, hr, hload⟩
  rcases Bucket.loadNew_error (b := .default) hr
    (t.rowids_pos r hr) hload with ⟨e, he⟩
  refine ⟨e, ?_⟩
  rw [UsageCache.usage_fst]
  change (((Bucket.default.loadNew t.rows project key.2).map _).map _) = _
  rw [he]
  rfl

/-- **When the SQLite gate decides alike**: every rule that applies finds all rows loadable, and
what SQLite counts besides does not show. -/
theorem sqliteVerdict_eq_iff (S : StoredEvents) (revenue : List RevenueEvent) (rules : RuleSet)
    (now : Time) (ev : LlmEvent) :
    sqliteVerdict S.table revenue rules now ev = .ok (Admission.fromStatuses (statusesFrom
        (fun k => ruleUsage S.events ev.projectId (k.1.since now) k.2) ev now
        (revenueList revenue ev.projectId) rules.rules)) ↔
      ∀ r ∈ rules.rules, r.applies ev now = true →
        AllLoadable S.table.rows ∧ SqliteAlike S.events ev.projectId now r := by
  by_cases hload : AllLoadable S.table.rows
  · -- every total can be read, and the verdicts are alike when the statuses are
    have hholds := UsageCache.holds_empty S.table now
    have hfit : ∀ p ∈ S.events, (storedRow p).TokensFit := by
      intro p hp
      refine (hload (storedRow p) ?_).tokens
      rw [S.rows_eq]
      exact List.mem_map_of_mem hp
    have hres : sqliteVerdict S.table revenue rules now ev = .ok (Admission.fromStatuses
        (statusesFrom (fun k => ruleUsage S.events ev.projectId (k.1.since now) k.2 +
          ((sqliteExtra S.events ev.projectId (k.1.since now) k.2).map fun p =>
            eventContribution p.2).sum) ev now (revenueList revenue ev.projectId) rules.rules)) := by
      refine admission_of_reads _ ev now _ rules ?_
      intro k
      rw [← windowUsage_storedRow hfit, ← S.rows_eq]
      exact (hholds.usage hload le_rfl ev.projectId k).1
    rw [hres, Except.ok.injEq]
    constructor
    · intro heq r hr happ
      refine ⟨hload, ?_⟩
      have hstatuses := congrArg Admission.statuses heq
      have hall := List.map_inj_left.1 hstatuses r (List.mem_filter.2 ⟨hr, happ⟩)
      exact (ruleStatus_add_iff ev now _ r _ _).1 hall.symm
    · intro hall
      refine congrArg Admission.fromStatuses (List.map_inj_left.2 ?_)
      intro r hr
      rcases List.mem_filter.1 hr with ⟨hmem, happ⟩
      exact ((ruleStatus_add_iff ev now _ r _ _).2 (hall r hmem happ).2).symm
  · constructor
    · intro heq r hr happ
      -- the first total asked for cannot be read
      exfalso
      unfold sqliteVerdict at heq
      rw [RuleSet.admission_eq, Traverse.map_eq_ok_iff] at heq
      rcases heq with ⟨sts, hsts, -⟩
      rcases (Traverse.mapM_mem hsts).2 r (List.mem_filter.2 ⟨hr, happ⟩) with ⟨st, -, hst⟩
      rcases fresh_usage_error hload ev.projectId now r.usageKey with ⟨e, he⟩
      have hread : ((UsageCache.reader S.table.rows ev.projectId now).read r.usageKey .empty).1 =
          .error e := he
      unfold ownStatus statusFrom at hst
      rw [hread] at hst
      cases hst
    · intro hall
      exact admission_of_applicable_reads _ ev now _ rules
        fun r hr happ => absurd (hall r hr happ).1 hload

/-! ## Gate, ledger and SQLite -/

/-- What the store reports for a rule's window: `usage_since`, or `usage_since_scoped`. -/
def reportedUsage (rows : List EventRow) (project : String) (since : Time) (scope : Option LimitScope) :
    Except StoreError Usage :=
  match scope with
  | none => Postgres.usageSince rows project since
  | some s => Postgres.usageSinceScoped rows project since s

/-- The gate charges every rule that matches the event for the traffic the rule applies to; so
does the ledger; and SQLite decides alike. -/
structure GateAgrees (S : StoredEvents) (revenue : List RevenueEvent) (rules : RuleSet) (now : Time)
    (ev : LlmEvent) : Prop where
  charged : ∀ r ∈ rules.rules, scopeMatches r.scope ev.scopeDims = true →
    Postgres.usageInTx S.table.rows ev.projectId (r.window.since now) r.scope =
      .ok (ruleUsage S.events ev.projectId (r.window.since now) r.scope)
  ledger : ∀ r ∈ rules.rules, scopeMatches r.scope ev.scopeDims = true →
    reportedUsage S.table.rows ev.projectId (r.window.since now) r.scope =
      Postgres.usageInTx S.table.rows ev.projectId (r.window.since now) r.scope
  verdict : Postgres.admitVerdict S.table.rows revenue rules now ev =
    sqliteVerdict S.table revenue rules now ev

/-- The condition for it. -/
structure GateCondition (S : StoredEvents) (rules : RuleSet) (now : Time) (ev : LlmEvent) :
    Prop where
  gate : ∀ r ∈ rules.rules, scopeMatches r.scope ev.scopeDims = true →
    GateExact S.events ev.projectId (r.window.since now) r.scope
  ledger : ∀ r ∈ rules.rules, scopeMatches r.scope ev.scopeDims = true →
    ∀ s ∈ r.scope, s.foldsCanonicalFamily = true →
      FoldExact S.events ev.projectId (r.window.since now) s
  sqlite : ∀ r ∈ rules.rules, r.applies ev now = true →
    AllLoadable S.table.rows ∧ SqliteAlike S.events ev.projectId now r

/-- What the store reports is what its gate reads, except that the fold of a model scope reads
every group of the window. -/
theorem reportedUsage_eq_iff (S : StoredEvents) (project : String) (since : Time)
    (scope : Option LimitScope)
    (h : Postgres.usageInTx S.table.rows project since scope =
      .ok (ruleUsage S.events project since scope)) :
    reportedUsage S.table.rows project since scope =
        Postgres.usageInTx S.table.rows project since scope ↔
      ∀ s ∈ scope, s.foldsCanonicalFamily = true → FoldExact S.events project since s := by
  cases scope with
  | none =>
    constructor
    · rintro - s ⟨⟩
    · intro _
      rfl
  | some s =>
    unfold reportedUsage Postgres.usageSinceScoped
    simp only
    cases hs : s.foldsCanonicalFamily with
    | true =>
      rw [if_pos rfl, h, S.rows_eq]
      refine (Postgres.usageForScope_eq_iff hs S.row_written project since).trans ?_
      constructor
      · rintro hexact s' ⟨⟩ -
        exact hexact
      · intro hall
        exact hall s rfl hs
    | false =>
      rw [if_neg Bool.false_ne_true]
      constructor
      · rintro - s' ⟨⟩ hs'
        rw [hs] at hs'
        cases hs'
      · intro _
        rfl

/-- **Gate, ledger and SQLite agree exactly under the condition.** -/
theorem gate_agrees_iff (S : StoredEvents) (revenue : List RevenueEvent) (rules : RuleSet)
    (now : Time) (ev : LlmEvent) :
    GateAgrees S revenue rules now ev ↔ GateCondition S rules now ev := by
  have hgate : ∀ (since : Time) (scope : Option LimitScope),
      Postgres.usageInTx S.table.rows ev.projectId since scope =
          .ok (ruleUsage S.events ev.projectId since scope) ↔
        GateExact S.events ev.projectId since scope := by
    intro since scope
    rw [S.rows_eq]
    exact Postgres.usageInTx_eq_iff S.row_written ev.projectId since scope
  have hverdict := fun hcharged => Postgres.admitVerdict_of_reads S.table.rows revenue rules now ev
    (u := fun k => ruleUsage S.events ev.projectId (k.1.since now) k.2) hcharged
  constructor
  · rintro ⟨hcharged, hledger, hsame⟩
    refine ⟨?_, ?_, ?_⟩
    · intro r hr hm
      exact (hgate _ _).1 (hcharged r hr hm)
    · intro r hr hm
      exact (reportedUsage_eq_iff S _ _ _ (hcharged r hr hm)).1 (hledger r hr hm)
    · rw [hverdict hcharged] at hsame
      exact (sqliteVerdict_eq_iff S revenue rules now ev).1 hsame.symm
  · rintro ⟨hexact, hfold, hsqlite⟩
    have hcharged : ∀ r ∈ rules.rules, scopeMatches r.scope ev.scopeDims = true →
        Postgres.usageInTx S.table.rows ev.projectId (r.window.since now) r.scope =
          .ok (ruleUsage S.events ev.projectId (r.window.since now) r.scope) :=
      fun r hr hm => (hgate _ _).2 (hexact r hr hm)
    refine ⟨hcharged, ?_, ?_⟩
    · intro r hr hm
      exact (reportedUsage_eq_iff S _ _ _ (hcharged r hr hm)).2 (hfold r hr hm)
    · rw [hverdict hcharged]
      exact ((sqliteVerdict_eq_iff S revenue rules now ev).2 hsqlite).symm

/-- A call of twenty dollars to a dated release. -/
def datedCall : LlmEvent :=
  { sampleEvent with id := "e0", model := "gpt-4o-2024-08-06", costUsd := some 20 }

/-- A project that has made this call. -/
def datedEvents : StoredEvents where
  events := [(1, datedCall)]
  table := EventTable.empty.append datedCall rfl
  rows_eq := rfl
  written := by
    intro p hp
    rw [List.mem_singleton.1 hp]
    rfl

/-- A daily cap of ten dollars on the family. -/
def familyCap : RuleSet := ⟨[sampleCap "cap" .block (some (.model "gpt-4o"))], by decide⟩

/-- **A dated release spends outside the cap on its family.** The store reports twenty dollars
against the cap of ten and SQLite turns the next call away, but the Postgres gate reads no spend
and admits it. -/
theorem dated_release_uncharged :
    ¬ GateAgrees datedEvents [] familyCap 1 sampleEvent ∧
      (Postgres.usageInTx datedEvents.table.rows "p" (LimitWindow.day.since 1)
        (some (.model "gpt-4o"))).toOption.map Usage.costUsd = some 0 ∧
      (Postgres.usageSinceScoped datedEvents.table.rows "p" (LimitWindow.day.since 1)
        (.model "gpt-4o")).toOption.map Usage.costUsd = some 20 ∧
      (Postgres.admitVerdict datedEvents.table.rows [] familyCap 1 sampleEvent).toOption.map
        Admission.admitted = some true ∧
      (sqliteVerdict datedEvents.table [] familyCap 1 sampleEvent).toOption.map
        Admission.admitted = some false := by
  have hpg : (Postgres.admitVerdict datedEvents.table.rows [] familyCap 1 sampleEvent).toOption.map
      Admission.admitted = some true := by decide +kernel
  have hsqlite : (sqliteVerdict datedEvents.table [] familyCap 1 sampleEvent).toOption.map
      Admission.admitted = some false := by decide +kernel
  refine ⟨?_, ?_, ?_, hpg, hsqlite⟩
  · intro h
    rw [h.verdict, hsqlite] at hpg
    cases hpg
  · decide +kernel
  · decide +kernel

end LightTrack
