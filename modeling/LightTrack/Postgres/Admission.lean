import LightTrack.Postgres.Rollup
import LightTrack.Store.Breach

/-! # Admission on Postgres

One transaction under the project's advisory lock reads the rules, the usage of every
`(window, scope)` a rule that matches the event needs, and the revenue, hands them to
the shared evaluator and inserts the event if it was admitted.

* `prefetch_spec` : what the pre-pass reads,
* `admitVerdict_of_reads` : with these reads the verdict is the evaluator's.
-/

namespace LightTrack

namespace Postgres

/-! ## The transaction -/

/-- The usage totals read so far. -/
abbrev Prefetched := List (UsageKey × Usage)

/-- The pre-pass of `admit_one`: each distinct `(window, scope)` of the rules that match is read
once, whether the rule is active or not. -/
def prefetch (read : UsageKey → Except StoreError Usage) (ev : LlmEvent) :
    List LimitRule → Prefetched → Except StoreError Prefetched
  | [], usages => .ok usages
  | r :: rules, usages =>
    if !scopeMatches r.scope ev.scopeDims then prefetch read ev rules usages
    else if (usages.lookup r.usageKey).isSome then prefetch read ev rules usages
    else
      match read r.usageKey with
      | .error e => .error e
      | .ok u => prefetch read ev rules ((r.usageKey, u) :: usages)

/-- The lookup handed to the evaluator. -/
def prefetched (usages : Prefetched) : UsageReader Unit StoreError where
  read k s :=
    (match usages.lookup k with
      | some u => .ok u
      | none => .error (.other "admission: usage for an applicable rule was not prefetched"), s)
  frame _ _ _ _ := rfl

/-- `resolve_revenue_thresholds`. -/
def resolveRevenueThresholds (rules : List LimitRule) (now : Time)
    (fetch : Time → Time → List RevenueEvent) : List (String × Resolved) :=
  if rules.any needsRevenue then resolveAll rules now fetch else []

/-- The decision of `admit_one`. -/
def admitVerdict (rows : List EventRow) (revenue : List RevenueEvent) (rules : RuleSet) (now : Time)
    (ev : LlmEvent) : Except StoreError Admission :=
  let read : UsageKey → Except StoreError Usage :=
    fun k => usageInTx rows ev.projectId (k.1.since now) k.2
  match prefetch read ev rules.rules [] with
  | .error e => .error e
  | .ok usages =>
    (evaluateAdmissionAt (prefetched usages) ev (eventContribution ev) now
      (resolver (resolveRevenueThresholds rules.rules now (revenueList revenue ev.projectId)))
      rules.rules ()).1

/-- The texts an insert binds, but for the rendered JSON columns. -/
def columnTexts (ev : LlmEvent) : List String :=
  [ev.id, ev.projectId, ev.provider.asStr, ev.model] ++
    ([ev.traceId, ev.spanId, ev.parentSpanId, ev.error, ev.source, ev.name].filterMap id)

/-- `INSERT INTO events`: no text column can hold U+0000, and a taken id is a conflict. -/
def insert (t : EventTable) (ev : LlmEvent) : Except StoreError EventTable :=
  if (columnTexts ev).any fun s => s.toList.contains '\x00' then .error (pgerr .nulInText)
  else t.insert ev

/-- `admit_one`: decide, then insert. -/
def admitOne (t : EventTable) (revenue : List RevenueEvent) (rules : RuleSet) (now : Time)
    (ev : LlmEvent) : Except StoreError Admission × EventTable :=
  match admitVerdict t.rows revenue rules now ev with
  | .error e => (.error e, t)
  | .ok a =>
    if a.admitted then
      match insert t ev with
      | .error e => (.error e, t)
      | .ok t => (.ok a, t)
    else (.ok a, t)

/-! ## The pre-pass -/

/-- What has been read is what reading gives. -/
def Faithful (read : UsageKey → Except StoreError Usage) (usages : Prefetched) : Prop :=
  ∀ k u, usages.lookup k = some u → read k = .ok u

theorem Faithful.cons {read : UsageKey → Except StoreError Usage} {usages : Prefetched}
    (h : Faithful read usages) {k : UsageKey} {u : Usage} (hread : read k = .ok u) :
    Faithful read ((k, u) :: usages) := by
  intro k' u' hlook
  rw [lookup_cons_ite] at hlook
  split_ifs at hlook with hk
  · rw [hk, ← Option.some.inj hlook]
    exact hread
  · exact h k' u' hlook

/-- **The pre-pass reads what the matching rules need**: it succeeds when all of that can be read,
and then every total they need is there. -/
theorem prefetch_spec {read : UsageKey → Except StoreError Usage} {ev : LlmEvent}
    (rules : List LimitRule) {usages : Prefetched} (h : Faithful read usages) :
    (∀ out, prefetch read ev rules usages = .ok out →
      Faithful read out ∧ (∀ k u, usages.lookup k = some u → out.lookup k = some u) ∧
        ∀ r ∈ rules, scopeMatches r.scope ev.scopeDims = true →
          ∃ u, out.lookup r.usageKey = some u) ∧
    ((∀ r ∈ rules, scopeMatches r.scope ev.scopeDims = true → ∃ u, read r.usageKey = .ok u) →
      ∃ out, prefetch read ev rules usages = .ok out) := by
  induction rules generalizing usages with
  | nil =>
    refine ⟨?_, fun _ => ⟨usages, rfl⟩⟩
    intro out hout
    cases hout
    exact ⟨h, fun _ _ hk => hk, by simp⟩
  | cons r rules ih =>
    -- the rules behind it, on totals that hold what was there and what `r` needs
    have hrest : ∀ usages', Faithful read usages' →
        (∀ k u, usages.lookup k = some u → usages'.lookup k = some u) →
        (scopeMatches r.scope ev.scopeDims = true → ∃ u, usages'.lookup r.usageKey = some u) →
        ∀ out, prefetch read ev rules usages' = .ok out →
          Faithful read out ∧ (∀ k u, usages.lookup k = some u → out.lookup k = some u) ∧
            ∀ r' ∈ r :: rules, scopeMatches r'.scope ev.scopeDims = true →
              ∃ u, out.lookup r'.usageKey = some u := by
      intro usages' hfaith hmore hr out hout
      rcases (ih hfaith).1 out hout with ⟨hfaith', hkeep, hrules⟩
      refine ⟨hfaith', fun k u hk => hkeep k u (hmore k u hk), ?_⟩
      intro r' hr' hm
      rcases List.mem_cons.1 hr' with rfl | hr'
      · rcases hr hm with ⟨u, hu⟩
        exact ⟨u, hkeep _ _ hu⟩
      · exact hrules r' hr' hm
    unfold prefetch
    cases hmatch : scopeMatches r.scope ev.scopeDims with
    | false =>
      rw [if_pos (by rfl)]
      refine ⟨hrest usages h (fun _ _ hk => hk) fun hm => ?_,
        fun hall => (ih h).2 fun r' hr' => hall r' (List.mem_cons_of_mem _ hr')⟩
      rw [hmatch] at hm
      cases hm
    | true =>
      rw [if_neg (by decide)]
      cases hlook : usages.lookup r.usageKey with
      | some u =>
        -- the total is there already
        rw [if_pos (by rfl)]
        exact ⟨hrest usages h (fun _ _ hk => hk) fun _ => ⟨u, hlook⟩,
          fun hall => (ih h).2 fun r' hr' => hall r' (List.mem_cons_of_mem _ hr')⟩
      | none =>
        rw [if_neg (by simp)]
        cases hread : read r.usageKey with
        | error e =>
          -- a total that cannot be read is one that `r` needs
          constructor
          · intro out hout
            cases hout
          · intro hall
            rcases hall r (List.mem_cons_self ..) hmatch with ⟨u, hu⟩
            rw [hread] at hu
            cases hu
        | ok u =>
          simp only
          refine ⟨hrest _ (h.cons hread) ?_ fun _ => ⟨u, by rw [lookup_cons_ite, if_pos rfl]⟩,
            fun hall => (ih (h.cons hread)).2 fun r' hr' => hall r' (List.mem_cons_of_mem _ hr')⟩
          intro k u' hk
          rw [lookup_cons_ite]
          split_ifs with heq
          · rw [heq, hlook] at hk
            cases hk
          · exact hk

/-! ## The verdict -/

/-- Without a rule that needs revenue there is nothing to resolve. -/
theorem resolveRevenueThresholds_eq (rules : List LimitRule) (now : Time)
    (fetch : Time → Time → List RevenueEvent) :
    resolveRevenueThresholds rules now fetch = resolveAll rules now fetch := by
  have hnone : ∀ (windows : List (Int × List RevenueEvent)) (rs : List LimitRule),
      rs.any needsRevenue = false → resolveFromWindows now windows rs = [] := by
    intro windows rs hrs
    induction rs with
    | nil => rfl
    | cons r rs ih =>
      rw [List.any_cons, Bool.or_eq_false_iff] at hrs
      unfold resolveFromWindows
      simp only [hrs.1, Bool.false_eq_true, if_false]
      exact ih hrs.2
  unfold resolveRevenueThresholds
  cases hany : rules.any needsRevenue with
  | true => rfl
  | false =>
    rw [if_neg Bool.false_ne_true]
    exact (hnone _ rules hany).symm

/-- A rule that applies to an event matches it. -/
theorem matches_of_applies {r : LimitRule} {ev : LlmEvent} {now : Time}
    (h : r.applies ev now = true) : scopeMatches r.scope ev.scopeDims = true :=
  (Bool.and_eq_true_iff.1 h).2

/-- **With every matching total read, the verdict is the evaluator's** over these totals. -/
theorem admitVerdict_of_reads (rows : List EventRow) (revenue : List RevenueEvent) (rules : RuleSet)
    (now : Time) (ev : LlmEvent) {u : UsageKey → Usage}
    (h : ∀ r ∈ rules.rules, scopeMatches r.scope ev.scopeDims = true →
      usageInTx rows ev.projectId (r.window.since now) r.scope = .ok (u r.usageKey)) :
    admitVerdict rows revenue rules now ev = .ok (Admission.fromStatuses
      (statusesFrom u ev now (revenueList revenue ev.projectId) rules.rules)) := by
  have hempty : Faithful (fun k : UsageKey => usageInTx rows ev.projectId (k.1.since now) k.2) [] := by
    intro k u hk
    simp at hk
  rcases prefetch_spec rules.rules hempty with ⟨hsound, hcomplete⟩
  rcases hcomplete fun r hr hm => ⟨_, h r hr hm⟩ with ⟨out, hout⟩
  rcases hsound out hout with ⟨hfaith, -, hrules⟩
  have hreads : ∀ r ∈ rules.rules, r.applies ev now = true →
      ((prefetched out).read r.usageKey ()).1 = .ok (u r.usageKey) := by
    intro r hr happ
    have hm := matches_of_applies happ
    rcases hrules r hr hm with ⟨v, hv⟩
    have hread := hfaith _ _ hv
    have hown := h r hr hm
    change usageInTx rows ev.projectId (r.window.since now) r.scope = .ok v at hread
    rw [hown, Except.ok.injEq] at hread
    unfold prefetched
    simp only [hv, hread]
  have hadm := admission_of_applicable_reads (prefetched out) ev now
    (revenueList revenue ev.projectId) rules hreads
  unfold admitVerdict
  simp only [hout, resolveRevenueThresholds_eq]
  exact hadm

end Postgres

end LightTrack
