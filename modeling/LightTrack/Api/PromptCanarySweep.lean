import LightTrack.Core.Prompt
import LightTrack.Lib.Run

/-! # The canary sweep

The sweep compares the version under a prompt's canary label with the one under its production label
and, where the policy asks for it, moves the canary label back to the version it replaced.

That version is read off the ledger, in which a move of the sweep counts like a promotion.  So the
label goes back and forth between two versions that both regress.

* `onePrompt_frame` : a revert moves one label and records it.
-/

namespace LightTrack

/-- What the sweep reads of the verdicts on one version. -/
structure ScoreSummaryRow where
  key : Option String
  n : ℕ
  mean : ℚ
  ci95Low : ℚ
  ci95High : ℚ

/-- What the sweep found, and what it did about it. -/
structure CanaryRegression where
  projectId : String
  prompt : String
  canaryLabel : String
  productionLabel : String
  canaryVersion : UInt32
  productionVersion : UInt32
  canaryMean : ℚ
  productionMean : ℚ
  canaryCi95High : ℚ
  productionCi95Low : ℚ
  canaryN : ℕ
  productionN : ℕ
  drop : ℚ
  maxDrop : ℚ
  revertedTo : Option UInt32

/-- `find`: the verdicts on one version. -/
def findSummary (rows : List ScoreSummaryRow) (tag : String) : Option ScoreSummaryRow :=
  rows.find? fun r => r.key == some tag

/-- `regression`: the relative drop, when the comparison is a regression. -/
def regression (policy : CanaryPolicy) (canary production : ScoreSummaryRow) : Option ℚ :=
  let minN := policy.minN.toNat
  if canary.n < minN ∨ production.n < minN then none
  else if production.mean ≤ 0 then none
  else if production.ci95Low ≤ canary.ci95High then none
  else
    let drop := (production.mean - canary.mean) / production.mean
    if policy.maxDrop < drop then some drop else none

/-- `revert`: where the label was moved back to, and the stored prompt. The write may fail. -/
def revert (now : Time) (stored : Bool) (prompt : Prompt) (policy : CanaryPolicy) :
    Option UInt32 × Prompt :=
  match prompt.previousVersion policy.label with
  | none => (none, prompt)
  | some previous =>
    if stored then
      (some previous, prompt.moveLabel now policy.label previous REASON_CANARY_REGRESSED)
    else (none, prompt)

/-- The two versions, the verdicts on them and the drop, when the canary regressed. -/
def compareVersions (policy : CanaryPolicy) (prompt : Prompt) (rows : List ScoreSummaryRow) :
    Option ((UInt32 × ScoreSummaryRow) × (UInt32 × ScoreSummaryRow) × ℚ) := do
  let canaryV ← prompt.labels.get policy.label
  let prodV ← prompt.labels.get policy.productionLabel
  if canaryV = prodV then none
  else
    let canary ← findSummary rows (CanaryPolicy.tag prompt.name canaryV)
    let production ← findSummary rows (CanaryPolicy.tag prompt.name prodV)
    let drop ← regression policy canary production
    some ((canaryV, canary), (prodV, production), drop)

/-- `one_prompt`: what was found, and the stored prompt. Without `rows` the summary could not be
read; `stored` says whether the write of a revert lands. -/
def onePrompt (now : Time) (rows : Option (List ScoreSummaryRow)) (stored : Bool)
    (prompt : Prompt) : Option CanaryRegression × Prompt :=
  match prompt.canary with
  | none => (none, prompt)
  | some policy =>
    if policy.invalid.isSome then (none, prompt)
    else
      match rows.bind (compareVersions policy prompt) with
      | none => (none, prompt)
      | some ((canaryV, canary), (prodV, production), drop) =>
        let (revertedTo, prompt') :=
          if policy.autoRevert then revert now stored prompt policy else (none, prompt)
        (some
          { projectId := prompt.projectId
            prompt := prompt.name
            canaryLabel := policy.label
            productionLabel := policy.productionLabel
            canaryVersion := canaryV
            productionVersion := prodV
            canaryMean := canary.mean
            productionMean := production.mean
            canaryCi95High := canary.ci95High
            productionCi95Low := production.ci95Low
            canaryN := canary.n
            productionN := production.n
            drop := drop
            maxDrop := policy.maxDrop
            revertedTo := revertedTo }, prompt')

/-! ## One pass -/

/-- The sweep has what it needs to move the canary label. -/
structure Acts (prompt : Prompt) (policy : CanaryPolicy) (rows : Option (List ScoreSummaryRow)) :
    Prop where
  policy_eq : prompt.canary = some policy
  valid : policy.invalid = none
  autoRevert : policy.autoRevert = true
  regressed : (rows.bind (compareVersions policy prompt)).isSome = true

theorem canaryVersion_of_compare {policy : CanaryPolicy} {prompt : Prompt}
    {rows : List ScoreSummaryRow} {found : (UInt32 × ScoreSummaryRow) × (UInt32 × ScoreSummaryRow) × ℚ}
    (h : compareVersions policy prompt rows = some found) :
    prompt.labels.get policy.label = some found.1.1 := by
  unfold compareVersions at h
  simp only [Option.bind_eq_bind, Option.bind_eq_some_iff] at h
  rcases h with ⟨canaryV, hcanary, prodV, -, h⟩
  split_ifs at h
  simp only [Option.bind_eq_some_iff, Option.some.injEq] at h
  rcases h with ⟨_, -, _, -, _, -, rfl⟩
  exact hcanary

/-- A pass moves nothing and leaves the prompt as it was, or it moves the canary label from the
version it points at to the one before. -/
theorem onePrompt_cases (now : Time) (rows : Option (List ScoreSummaryRow)) (stored : Bool)
    (prompt : Prompt) :
    ((onePrompt now rows stored prompt).2 = prompt ∧
        (onePrompt now rows stored prompt).1.bind CanaryRegression.revertedTo = none) ∨
      ∃ policy r current previous, Acts prompt policy rows ∧
        prompt.labels.get policy.label = some current ∧
        prompt.previousVersion policy.label = some previous ∧
        onePrompt now rows stored prompt =
          (some r, prompt.moveLabel now policy.label previous REASON_CANARY_REGRESSED) ∧
        r.canaryLabel = policy.label ∧ r.canaryVersion = current ∧
          r.revertedTo = some previous := by
  unfold onePrompt
  cases hcanary : prompt.canary with
  | none => exact .inl ⟨rfl, rfl⟩
  | some policy =>
    simp only
    by_cases hinvalid : policy.invalid.isSome = true
    · rw [if_pos hinvalid]
      exact .inl ⟨rfl, rfl⟩
    rw [if_neg hinvalid]
    cases hfound : rows.bind (compareVersions policy prompt) with
    | none => exact .inl ⟨rfl, rfl⟩
    | some found =>
      rcases found with ⟨⟨canaryV, canary⟩, ⟨prodV, production⟩, drop⟩
      simp only
      -- a regression was found: only a policy that reverts itself moves the label
      by_cases hauto : policy.autoRevert = true
      · rw [if_pos hauto]
        unfold revert
        cases hprevious : prompt.previousVersion policy.label with
        | none => exact .inl ⟨rfl, rfl⟩
        | some previous =>
          -- a write that is not stored leaves the prompt as it was
          cases stored with
          | false => exact .inl ⟨rfl, rfl⟩
          | true =>
            rcases Option.bind_eq_some_iff.1 hfound with ⟨rows', -, hcompare⟩
            refine .inr ⟨policy, _, canaryV, previous, ⟨hcanary, ?_, hauto, ?_⟩,
              canaryVersion_of_compare hcompare, hprevious, rfl, rfl, rfl, rfl⟩
            · simpa using hinvalid
            · rw [hfound]
              rfl
      · rw [if_neg hauto]
        exact .inl ⟨rfl, rfl⟩

/-! ## What a pass leaves alone -/

/-- All but the canary label, the ledger and the time of the last update. -/
structure SameOtherwise (label : String) (p p' : Prompt) : Prop where
  rest : { p' with labels := p.labels, labelHistory := p.labelHistory, updatedAt := p.updatedAt } = p
  labels : ∀ label', label' ≠ label → p'.labels.get label' = p.labels.get label'

/-- A pass leaves the prompt as it was, or it changes the canary label, and the ledger by one entry
that says so. -/
def RevertFrame (now : Time) (rows : Option (List ScoreSummaryRow)) (stored : Bool) (p : Prompt) :
    Prop :=
  (onePrompt now rows stored p).2 = p ∨
    ∃ policy previous, Acts p policy rows ∧
      SameOtherwise policy.label p (onePrompt now rows stored p).2 ∧
      (onePrompt now rows stored p).2.labels.get policy.label = some previous ∧
      (onePrompt now rows stored p).2.labelHistory.reverse =
        ⟨policy.label, previous, now, some REASON_CANARY_REGRESSED⟩ ::
          p.labelHistory.reverse.take (MAX_LABEL_HISTORY - 1)

theorem onePrompt_frame (now : Time) (rows : Option (List ScoreSummaryRow)) (stored : Bool)
    (p : Prompt) : RevertFrame now rows stored p := by
  rcases onePrompt_cases now rows stored p with ⟨hsame, -⟩ |
    ⟨policy, r, current, previous, hacts, -, -, hpass, -⟩
  · exact .inl hsame
  · right
    rw [hpass]
    refine ⟨policy, previous, hacts, ⟨rfl, fun label' hne => ?_⟩, ?_, ?_⟩
    · have hget := p.get_moveLabel now policy.label label' previous REASON_CANARY_REGRESSED
      rw [if_neg hne] at hget
      exact hget
    · have hget := p.get_moveLabel now policy.label policy.label previous REASON_CANARY_REGRESSED
      rw [if_pos rfl] at hget
      exact hget
    · exact p.reverse_history_moveLabel now policy.label previous REASON_CANARY_REGRESSED

end LightTrack
