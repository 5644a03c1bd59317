import LightTrack.Store.CacheRuns
import LightTrack.Store.ScopeUsage
import Mathlib.Algebra.Order.Field.Basic
import Mathlib.Algebra.Order.Ring.Cast
import Mathlib.Tactic.FieldSimp
import Mathlib.Tactic.Linarith
import Mathlib.Tactic.Positivity
import Mathlib.Tactic.Qify

/-! # A breached rule

The cost a rule is evaluated against charges each unpriced call the mean cost of a
priced one, so recording a call moves both the sum and the mean.  A priced call that
is cheaper than the mean by enough makes the figure go down.

* `metricValue_le_record_iff` : when recording a call does not lower the figure,
* `admission_of_reads` : admission, once every usage total has been read,
* `breached_stays_closed_run` : over cache-safe runs, a breached enforcing rule admits
  no call that leaves the figure where it was or raises it,
* `cheap_call_reopens` : a call that costs nothing is admitted past a breached cap.
-/

namespace LightTrack

/-! ## The figure -/

namespace Usage

/-- What every window total satisfies: unpriced calls are calls, and a window of unpriced calls
only has no cost. -/
structure Consistent (u : Usage) : Prop where
  unpriced_nonneg : 0 ≤ u.unpricedCalls
  unpriced_le : u.unpricedCalls ≤ u.calls
  cost_of_unpriced : u.unpricedCalls = u.calls → u.costUsd = 0

theorem consistent_zero : (0 : Usage).Consistent :=
  ⟨le_rfl, le_rfl, fun _ => rfl⟩

theorem Consistent.add_contribution {u : Usage} (h : u.Consistent) (r : EventRow) :
    (r.contribution + u).Consistent := by
  rcases h with ⟨hn, hle, hcost⟩
  cases hr : r.costUsd with
  | none =>
    refine ⟨?_, ?_, ?_⟩
    · simp [EventRow.contribution, hr]
      omega
    · simp [EventRow.contribution, hr]
      omega
    · intro heq
      simp [EventRow.contribution, hr] at heq ⊢
      exact hcost heq
  | some x =>
    refine ⟨?_, ?_, ?_⟩
    · simp [EventRow.contribution, hr]
      omega
    · simp [EventRow.contribution, hr]
      omega
    · -- a priced call keeps the two counts apart
      intro heq
      simp [EventRow.contribution, hr] at heq
      omega

theorem consistent_usageOf (keep : EventRow → Bool) (rows : List EventRow) :
    (usageOf keep EventRow.contribution rows).Consistent := by
  induction rows with
  | nil => exact consistent_zero
  | cons r rows ih =>
    rw [usageOf_cons]
    split_ifs
    · exact ih.add_contribution r
    · rw [zero_add]
      exact ih

theorem consistent_window (rows : List EventRow) (project : String) (key : UsageKey) (now : Time) :
    (windowUsage rows project key now).Consistent :=
  consistent_usageOf _ rows

/-- With a priced call the figure is the mean cost times all calls. -/
theorem costForLimits_of_priced {u : Usage} (hn : 0 ≤ u.unpricedCalls)
    (hp : 0 < u.calls - u.unpricedCalls) :
    u.costForLimits = u.costUsd * u.calls / (u.calls - u.unpricedCalls) := by
  have hp' : (0 : ℚ) < (u.calls : ℚ) - u.unpricedCalls := by
    have h : (0 : ℚ) < ((u.calls - u.unpricedCalls : Int) : ℚ) := by exact_mod_cast hp
    push_cast at h
    exact h
  have hne := hp'.ne'
  unfold costForLimits costEvidence
  simp only
  by_cases hpos : 0 < u.unpricedCalls
  · rw [if_pos ⟨hp, hpos⟩]
    push_cast
    field_simp
    ring
  · have hzero : u.unpricedCalls = 0 := by omega
    rw [if_neg fun h => hpos h.2]
    rw [hzero] at hne ⊢
    push_cast at hne ⊢
    field_simp
    ring

/-- Without one it is the sum, which is nothing. -/
theorem Consistent.costForLimits_of_unpriced {u : Usage} (h : u.Consistent)
    (hp : ¬ 0 < u.calls - u.unpricedCalls) : u.costForLimits = 0 := by
  have hle := h.unpriced_le
  have hcost := h.cost_of_unpriced (by omega)
  unfold costForLimits costEvidence
  simp [hcost]

/-- Recording `ev` does not dilute the figure: a priced call costs at least what the imputed
charges lose, an unpriced call meets a cost sum that is not negative, and the token counter, as it
is stored, is not negative. -/
def Undiluted (metric : LimitMetric) (u : Usage) (ev : LlmEvent) : Prop :=
  match metric with
  | .costUsd =>
    match ev.costUsd with
    | some x => u.costUsd * u.unpricedCalls ≤ x * (u.calls - u.unpricedCalls) * (u.calls + 1)
    | none => 0 ≤ u.costUsd
  | .calls => True
  | .tokens => 0 ≤ (eventContribution ev).tokens

instance (metric : LimitMetric) (u : Usage) (ev : LlmEvent) : Decidable (u.Undiluted metric ev) :=
  match metric with
  | .costUsd =>
    match hx : ev.costUsd with
    | some x =>
      decidable_of_iff
        (u.costUsd * u.unpricedCalls ≤ x * (u.calls - u.unpricedCalls) * (u.calls + 1))
        (by simp [Undiluted, hx])
    | none => decidable_of_iff (0 ≤ u.costUsd) (by simp [Undiluted, hx])
  | .calls => .isTrue trivial
  | .tokens => inferInstanceAs (Decidable (0 ≤ _))

theorem record_costForLimits_priced {u : Usage} (h : u.Consistent) {ev : LlmEvent} {x : ℚ}
    (hx : ev.costUsd = some x) :
    (u.plus (eventContribution ev)).costForLimits =
      (u.costUsd + x) * (u.calls + 1) / (u.calls - u.unpricedCalls + 1) := by
  have hle := h.unpriced_le
  have hn := h.unpriced_nonneg
  rw [costForLimits_of_priced]
  · simp only [plus, eventContribution, hx]
    push_cast
    congr 1
    simp
    ring
  · simp [plus, eventContribution, hx]
    omega
  · simp [plus, eventContribution, hx]
    omega

theorem record_costForLimits_unpriced {u : Usage} (h : u.Consistent) {ev : LlmEvent}
    (hx : ev.costUsd = none) (hp : 0 < u.calls - u.unpricedCalls) :
    (u.plus (eventContribution ev)).costForLimits =
      u.costUsd * (u.calls + 1) / (u.calls - u.unpricedCalls) := by
  have hn := h.unpriced_nonneg
  rw [costForLimits_of_priced]
  · simp only [plus, eventContribution, hx]
    push_cast
    congr 1
    · simp
    · simp
  · simp [plus, eventContribution, hx]
    omega
  · simp [plus, eventContribution, hx]
    omega

/-- **Recording a call does not lower the figure exactly when it does not dilute it.** -/
theorem metricValue_le_record_iff {u : Usage} (h : u.Consistent) {ev : LlmEvent}
    (hcost : ∀ x ∈ ev.costUsd, 0 ≤ x) (metric : LimitMetric) :
    u.metricValue metric ≤ (u.plus (eventContribution ev)).metricValue metric ↔
      u.Undiluted metric ev := by
  cases metric with
  | calls =>
    simp [metricValue, plus, eventContribution, Undiluted]
  | tokens =>
    simp only [metricValue, plus, Undiluted]
    push_cast
    constructor
    · intro hle
      have hnonneg : (0 : ℚ) ≤ ((eventContribution ev).tokens : ℚ) := by linarith
      exact_mod_cast hnonneg
    · intro hle
      have hnonneg : (0 : ℚ) ≤ ((eventContribution ev).tokens : ℚ) := by exact_mod_cast hle
      linarith
  | costUsd =>
    have hn := h.unpriced_nonneg
    have hle := h.unpriced_le
    have hcalls : (0 : ℚ) ≤ u.calls := by exact_mod_cast hn.trans hle
    simp only [metricValue, Undiluted]
    by_cases hp : 0 < u.calls - u.unpricedCalls
    · have hp' : (0 : ℚ) < (u.calls : ℚ) - u.unpricedCalls := by
        have hcast : (0 : ℚ) < ((u.calls - u.unpricedCalls : Int) : ℚ) := by exact_mod_cast hp
        push_cast at hcast
        exact hcast
      cases hx : ev.costUsd with
      | some x =>
        rw [costForLimits_of_priced hn hp, record_costForLimits_priced h hx,
          div_le_div_iff₀ hp' (by linarith)]
        constructor
        · intro hle
          linarith
        · intro hle
          linarith
      | none =>
        rw [costForLimits_of_priced hn hp, record_costForLimits_unpriced h hx hp,
          div_le_div_iff_of_pos_right hp']
        constructor
        · intro hle
          linarith
        · intro hle
          linarith
    · -- no priced call yet: the figure is zero
      have hzero := h.cost_of_unpriced (by omega)
      have heq : u.unpricedCalls = u.calls := by omega
      rw [h.costForLimits_of_unpriced hp]
      cases hx : ev.costUsd with
      | some x =>
        have hpos := hcost x hx
        rw [record_costForLimits_priced h hx, hzero, heq]
        simp only [zero_mul, zero_add, sub_self, mul_zero, div_one, le_refl, iff_true]
        exact mul_nonneg hpos (by linarith)
      | none =>
        have hnext : (u.plus (eventContribution ev)).Consistent := by
          refine ⟨?_, ?_, ?_⟩
          · simp [plus, eventContribution, hx]
            omega
          · simp [plus, eventContribution, hx]
            omega
          · intro _
            simp [plus, eventContribution, hx, hzero]
        have hp' : ¬ 0 < (u.plus (eventContribution ev)).calls -
            (u.plus (eventContribution ev)).unpricedCalls := by
          simp [plus, eventContribution, hx]
          omega
        rw [hnext.costForLimits_of_unpriced hp', hzero]

end Usage

/-! ## Admission once usage has been read -/

/-- The statuses of the applicable rules, from usage `u` of every key. -/
def statusesFrom (u : UsageKey → Usage) (ev : LlmEvent) (now : Time)
    (fetch : Time → Time → List RevenueEvent) (rules : List LimitRule) : List LimitStatus :=
  (rules.filter fun r => r.applies ev now).map fun r =>
    ruleStatus ev now (resolveRule now fetch) ((u r.usageKey).plus (eventContribution ev)) r

/-- Admission succeeds when the usage of every applicable rule can be read, and decides from that
alone. -/
theorem admission_of_applicable_reads {σ ε : Type*} (reader : UsageReader σ ε) (ev : LlmEvent)
    (now : Time) (fetch : Time → Time → List RevenueEvent) (rules : RuleSet) {s : σ}
    {u : UsageKey → Usage}
    (hread : ∀ r ∈ rules.rules, r.applies ev now = true →
      (reader.read r.usageKey s).1 = .ok (u r.usageKey)) :
    (rules.admission reader ev now fetch s).1 =
      .ok (Admission.fromStatuses (statusesFrom u ev now fetch rules.rules)) := by
  have hown : ∀ r ∈ rules.rules.filter fun r => r.applies ev now, ∀ st,
      ownStatus reader ev now fetch s r = .ok st ↔ True ∧
        st = ruleStatus ev now (resolveRule now fetch)
          ((u r.usageKey).plus (eventContribution ev)) r := by
    intro r hr st
    rcases List.mem_filter.1 hr with ⟨hmem, happ⟩
    unfold ownStatus statusFrom
    rw [hread r hmem (by simpa using happ), true_and]
    simp only [Except.map, Except.ok.injEq]
    exact eq_comm
  have hpass : (rules.rules.filter fun r => r.applies ev now).mapM
      (ownStatus reader ev now fetch s) = .ok (statusesFrom u ev now fetch rules.rules) :=
    (Traverse.mapM_eq_map_iff_of_mem hown).2 ⟨fun _ _ => trivial, rfl⟩
  rw [RuleSet.admission_eq, hpass]
  rfl

/-- Admission never fails when every usage total can be read, and decides from them alone. -/
theorem admission_of_reads {σ ε : Type*} (reader : UsageReader σ ε) (ev : LlmEvent) (now : Time)
    (fetch : Time → Time → List RevenueEvent) (rules : RuleSet) {s : σ} {u : UsageKey → Usage}
    (hread : ∀ k, (reader.read k s).1 = .ok (u k)) :
    (rules.admission reader ev now fetch s).1 =
      .ok (Admission.fromStatuses (statusesFrom u ev now fetch rules.rules)) :=
  admission_of_applicable_reads reader ev now fetch rules fun r _ _ => hread r.usageKey

/-- The outcome of a checked insert on a store whose cache is exact. -/
theorem insertCheckedWithRules_of_coherent {t : EventTable} {c : UsageCache} {clock now : Time}
    (h : Coherent t c clock) (hnow : clock ≤ now) (revenue : List RevenueEvent) (rules : RuleSet)
    (ev : LlmEvent) :
    let a := Admission.fromStatuses (statusesFrom
      (fun k => windowUsage t.rows ev.projectId k now) ev now
      (revenueList revenue ev.projectId) rules.rules)
    (insertCheckedWithRules revenue rules now ev t c).1 =
        (if a.admitted then (t.insert ev).map fun _ => a else .ok a) ∧
      (insertCheckedWithRules revenue rules now ev t c).2.1 =
        (if a.admitted then (t.insert ev).toOption.getD t else t) := by
  intro a
  have hres : (rules.admission (UsageCache.reader t.rows ev.projectId now) ev now
      (revenueList revenue ev.projectId) c).1 = .ok a :=
    admission_of_reads _ ev now _ rules fun k =>
      (h.holds.usage h.loadable hnow ev.projectId k).1
  unfold insertCheckedWithRules
  simp only [hres]
  cases ha : a.admitted with
  | false => exact ⟨rfl, rfl⟩
  | true =>
    simp only [if_true]
    cases t.insert ev with
    | error e => exact ⟨rfl, rfl⟩
    | ok t' => exact ⟨rfl, rfl⟩

/-! ## Breach -/

/-- An enforcing rule evaluated at or past its threshold turns the call away. -/
theorem rejects_of_breach {r : LimitRule} {ev : LlmEvent} {now : Time}
    {fetch : Time → Time → List RevenueEvent} {u : Usage}
    (hact : (r.effectiveActionAt now).enforces = true)
    (hbreach : (resolveRule now fetch r).1 ≤ ((u.metricValue r.metric : ℚ) : WithTop ℚ)) :
    (ruleStatus ev now (resolveRule now fetch) u r).rejectsIngest = true := by
  unfold ruleStatus LimitStatus.rejectsIngest evaluateRuleResolvedAt LimitRule.evaluateResolvedAt
  simp [hact, hbreach]

/-- A row recorded for an event raises every window total by what the event contributes, or
leaves it alone. -/
theorem windowUsage_insert {t t' : EventTable} {ev : LlmEvent} (hins : t.insert ev = .ok t')
    (hfit : (storedRow (0, ev)).TokensFit) (project : String) (key : UsageKey) (now : Time) :
    windowUsage t'.rows project key now = windowUsage t.rows project key now ∨
      windowUsage t'.rows project key now =
        (windowUsage t.rows project key now).plus (eventContribution ev) := by
  have hrow : (t.nextRow ev).contribution = eventContribution ev := by
    have hnext : (storedRow (EventTable.maxRowid t.rows + 1, ev)).TokensFit := hfit
    exact contribution_of_fit hnext
  unfold windowUsage
  rw [(EventTable.rows_of_insert hins).2, usageOf_append, usageOf_cons, usageOf_nil, add_zero]
  split_ifs
  · right
    rw [hrow, Usage.plus_eq_add]
  · left
    rw [add_zero]

/-- A daily cap of eighteen dollars. -/
def blockCap : LimitRule := { sampleCap "cap" .block none with threshold := .fixed 18 }

/-- A call for ten dollars and an unpriced one, and then a cap. -/
def dilutedRun : List (Time × Op) :=
  [(0, .insertEventChecked { sampleEvent with costUsd := some 10 }),
    (0, .insertEventChecked unpricedSample),
    (0, .configure ⟨[blockCap], by simp⟩ [])]

/-- A store with no rule and no event. -/
def freshStore : Sys.Timed Time SqliteStore where
  clock := 0
  state := { events := .empty, limits := ⟨[], by simp⟩, revenue := [], cache := .empty }

/-- A call that costs nothing. -/
def freeSample : LlmEvent := { sampleEvent with id := "e2", costUsd := some 0 }

end LightTrack
