import LightTrack.Core.Limits
import LightTrack.Core.Text
import Mathlib.Algebra.Order.Field.Basic
import Mathlib.Algebra.Order.Ring.Rat
import Mathlib.Tactic.Common
import Mathlib.Tactic.Positivity

/-! # Pressure

What more usage does to one rule.  Below its threshold a `throttle` rule sheds a share of the traffic
that grows along a ramp; at the threshold every enforcing rule turns into a hard stop.  The seams of
these pieces are here: a rule that turns an event away keeps turning it away when usage grows.

* `LimitRule.validate` : what is accepted as a rule,
* `shedFraction_mono` : the ramp never falls,
* `turnsAway_of_le` : nor does the answer for one event.
-/

namespace LightTrack

/-! ## Validation -/

section Validate

-- how a number is written out
variable (display : ℚ → String)

/-- `Threshold::validate`. -/
def Threshold.validate : Threshold → Except String Unit
  | .fixed v =>
    if 0 < v then .ok ()
    else .error s!"threshold must be a finite number greater than 0 (got {display v})"
  | .revenueShare pct =>
    if 0 < pct ∧ pct ≤ 1000 then .ok ()
    else .error s!"threshold.pct must be a finite percentage in (0, 1000] (got {display pct})"

/-- `Escalation::validate`. -/
def Escalation.validate (e : Escalation) : Except String Unit := do
  if ¬ 0 < e.onEtaDays then
    throw ("escalation.on_eta_days must be a finite number greater than 0 (got " ++
      display e.onEtaDays ++ ")")
  if e.forHours = 0 ∨ 24 * 30 < e.forHours then
    throw s!"escalation.for_hours must be between 1 and 720 (got {e.forHours})"

/-- `LimitRule::validate`: the threshold, the escalation, the warning and the scope, in this
order. -/
def LimitRule.validate (r : LimitRule) : Except String Unit := do
  r.threshold.validate display
  match r.escalation with
  | some e => e.validate display
  | none => pure ()
  match r.warnAt with
  | some w =>
    if ¬ (0 < w ∧ w < 1) then
      throw s!"warn_at must be a fraction strictly between 0 and 1 (got {display w})"
  | none => pure ()
  match r.scope with
  | some s =>
    if isBlank s.value then
      throw ("scope `" ++ s.kindStr ++
        "` needs a non-empty value (a blank scope matches no traffic)")
  | none => pure ()

end Validate

/-- The threshold of an accepted rule is accepted. -/
theorem LimitRule.threshold_of_validate {display : ℚ → String} {r : LimitRule}
    (h : r.validate display = .ok ()) : r.threshold.validate display = .ok () := by
  unfold LimitRule.validate at h
  cases hthreshold : r.threshold.validate display with
  | ok _ => exact congrArg Except.ok (Subsingleton.elim _ _)
  | error text =>
    rw [hthreshold] at h
    cases h

/-- A constant threshold that was accepted is positive. -/
theorem LimitRule.pos_of_validate {display : ℚ → String} {r : LimitRule}
    (h : r.validate display = .ok ()) {v : ℚ} (hv : r.threshold = .fixed v) : 0 < v := by
  have hok := LimitRule.threshold_of_validate h
  rw [hv, Threshold.validate] at hok
  by_contra hneg
  rw [if_neg hneg] at hok
  cases hok

/-- A share of revenue that was accepted is positive where the revenue is. -/
theorem LimitRule.share_pos_of_validate {display : ℚ → String} {r : LimitRule}
    (h : r.validate display = .ok ()) {pct rev : ℚ} (hpct : r.threshold = .revenueShare pct)
    (hrev : 0 < rev) : 0 < rev * pct / 100 := by
  have hok := LimitRule.threshold_of_validate h
  rw [hpct, Threshold.validate] at hok
  have hpos : 0 < pct := by
    by_contra hneg
    rw [if_neg fun hin => hneg hin.1] at hok
    cases hok
  positivity

/-! ## The ramp -/

theorem clamp01_mono {x y : ℚ} (h : x ≤ y) : clamp01 x ≤ clamp01 y :=
  max_le_max_left 0 (min_le_min_left 1 h)

theorem clamp01_le_one (x : ℚ) : clamp01 x ≤ 1 := max_le zero_le_one (min_le_left _ _)

theorem clamp01_of_nonpos {x : ℚ} (h : x ≤ 0) : clamp01 x = 0 :=
  max_eq_left ((min_le_right _ _).trans h)

namespace LimitRule

variable {r : LimitRule} {t : WithTop ℚ} {basis : ThresholdBasis} {e e' : Option CostEvidence}
  {now : Time} {u u' : ℚ}

theorem throttleStart_lt_one (r : LimitRule) : r.throttleStart < 1 := by
  unfold throttleStart
  cases hw : r.warnAt.filter fun w => 0 < w && w < 1 with
  | none =>
    rw [Option.getD_none]
    decide +kernel
  | some w =>
    have hin := (Option.filter_eq_some_iff.1 hw).2
    rw [Bool.and_eq_true, decide_eq_true_eq, decide_eq_true_eq] at hin
    exact hin.2

/-- The share that is shed: nothing without a ramp, everything from the threshold on, and along the
ramp in between. -/
theorem shedFraction_eq : (r.evaluateResolvedAt u t basis e now).shedFraction =
    if (r.effectiveActionAt now).sheds = false then 0
    else if t ≤ (u : WithTop ℚ) then 1
    else match t with
      | ⊤ => clamp01 ((0 - r.throttleStart) / (1 - r.throttleStart))
      | (v : ℚ) =>
        if 0 < v then clamp01 ((u / v - r.throttleStart) / (1 - r.throttleStart)) else 1 := by
  unfold evaluateResolvedAt
  dsimp only
  cases hsheds : (r.effectiveActionAt now).sheds with
  | false => simp
  | true =>
    by_cases hbreach : t ≤ (u : WithTop ℚ)
    · simp [hbreach]
    · cases t with
      | top => simp
      | coe v =>
        by_cases hv : 0 < v
        · simp [hbreach, hv]
        · simp [hbreach, hv]

/-- **The ramp never falls.** -/
theorem shedFraction_mono (h : u ≤ u') : (r.evaluateResolvedAt u t basis e now).shedFraction ≤
    (r.evaluateResolvedAt u' t basis e' now).shedFraction := by
  rw [shedFraction_eq, shedFraction_eq]
  by_cases hsheds : (r.effectiveActionAt now).sheds = false
  · rw [if_pos hsheds, if_pos hsheds]
  rw [if_neg hsheds, if_neg hsheds]
  have hcoe : (u : WithTop ℚ) ≤ u' := WithTop.coe_le_coe.2 h
  have hramp : 0 < 1 - r.throttleStart := sub_pos.2 r.throttleStart_lt_one
  by_cases hbreach' : t ≤ (u' : WithTop ℚ)
  · -- past the seam everything is shed
    rw [if_pos hbreach']
    split
    · exact le_rfl
    · cases t with
      | top => exact clamp01_le_one _
      | coe v =>
        dsimp only
        split_ifs
        · exact clamp01_le_one _
        · exact le_rfl
  · have hbreach : ¬ t ≤ (u : WithTop ℚ) := fun hle => hbreach' (hle.trans hcoe)
    rw [if_neg hbreach, if_neg hbreach']
    cases t with
    | top => exact le_rfl
    | coe v =>
      dsimp only
      split_ifs with hv
      · apply clamp01_mono
        have hratio : u / v ≤ u' / v := div_le_div_of_nonneg_right h hv.le
        exact div_le_div_of_nonneg_right (sub_le_sub_right hratio _) hramp.le
      · exact le_rfl

/-- From the threshold on a rule with a ramp sheds everything. -/
theorem shedFraction_of_breach (hsheds : (r.effectiveActionAt now).sheds = true)
    (h : t ≤ (u : WithTop ℚ)) : (r.evaluateResolvedAt u t basis e now).shedFraction = 1 := by
  rw [shedFraction_eq, if_neg (by simp [hsheds]), if_pos h]

/-- Up to the start of the ramp nothing is shed. -/
theorem shedFraction_of_start {v : ℚ} (hv : 0 < v) (h : u ≤ r.throttleStart * v) :
    (r.evaluateResolvedAt u v basis e now).shedFraction = 0 := by
  have hlt : u < v := h.trans_lt (mul_lt_of_lt_one_left hv r.throttleStart_lt_one)
  have hbreach : ¬ ((v : ℚ) : WithTop ℚ) ≤ u := by
    rw [WithTop.coe_le_coe]
    exact not_le.2 hlt
  rw [shedFraction_eq, if_neg hbreach]
  split
  · rfl
  · dsimp only
    rw [if_pos hv]
    apply clamp01_of_nonpos
    have hratio : u / v ≤ r.throttleStart := (div_le_iff₀ hv).2 h
    exact div_nonpos_of_nonpos_of_nonneg (sub_nonpos.2 hratio)
      (sub_nonneg.2 r.throttleStart_lt_one.le)

/-- Against a threshold that could not be measured nothing is shed. -/
theorem shedFraction_of_unknown : (r.evaluateResolvedAt u ⊤ basis e now).shedFraction = 0 := by
  have hbreach : ¬ (⊤ : WithTop ℚ) ≤ u := by simp
  rw [shedFraction_eq, if_neg hbreach]
  split
  · rfl
  · dsimp only
    have hpos : 0 ≤ r.throttleStart := by
      unfold throttleStart
      cases hw : r.warnAt.filter fun w => 0 < w && w < 1 with
      | none =>
        rw [Option.getD_none]
        decide +kernel
      | some w =>
        have hin := (Option.filter_eq_some_iff.1 hw).2
        rw [Bool.and_eq_true, decide_eq_true_eq, decide_eq_true_eq] at hin
        exact hin.1.le
    apply clamp01_of_nonpos
    rw [zero_sub]
    exact div_nonpos_of_nonpos_of_nonneg (neg_nonpos.2 hpos)
      (sub_nonneg.2 r.throttleStart_lt_one.le)

end LimitRule

/-! ## One event -/

/-- A status turns the event away, by a hard stop or by the lottery. -/
def LimitStatus.turnsAway (s : LimitStatus) (eventId : String) : Bool :=
  s.rejectsIngest || s.sheds eventId

section Turn

variable {r : LimitRule} {t : WithTop ℚ} {basis : ThresholdBasis} {e e' : Option CostEvidence}
  {now : Time} {u u' : ℚ} {eventId : String}

theorem rejectsIngest_iff : (r.evaluateResolvedAt u t basis e now).rejectsIngest = true ↔
    (r.effectiveActionAt now).enforces = true ∧
      (t ≤ (u : WithTop ℚ) ∨ e.any CostEvidence.unpriceable = true) := by
  unfold LimitStatus.rejectsIngest LimitStatus.unpriceable LimitRule.evaluateResolvedAt
  rw [Bool.and_eq_true, Bool.or_eq_true, decide_eq_true_eq]

theorem sheds_iff : (r.evaluateResolvedAt u t basis e now).sheds eventId = true ↔
    ¬ t ≤ (u : WithTop ℚ) ∧ 0 < (r.evaluateResolvedAt u t basis e now).shedFraction ∧
      shedTicket r.id eventId < (r.evaluateResolvedAt u t basis e now).shedFraction := by
  have hbreached : (r.evaluateResolvedAt u t basis e now).breached =
      decide (t ≤ (u : WithTop ℚ)) := by
    simp only [LimitRule.evaluateResolvedAt]
  have hid : (r.evaluateResolvedAt u t basis e now).ruleId = r.id := by
    simp only [LimitRule.evaluateResolvedAt]
  unfold LimitStatus.sheds
  rw [hbreached, hid, Bool.and_eq_true, Bool.and_eq_true, Bool.not_eq_true', decide_eq_false_iff_not,
    decide_eq_true_eq, decide_eq_true_eq, and_assoc]

/-- Only an enforcing action has a ramp. -/
theorem enforces_of_shedFraction_pos
    (h : 0 < (r.evaluateResolvedAt u t basis e now).shedFraction) :
    (r.effectiveActionAt now).enforces = true := by
  rw [LimitRule.shedFraction_eq] at h
  cases haction : r.effectiveActionAt now with
  | throttle => simp [LimitAction.enforces]
  | block => simp [LimitAction.enforces]
  | alert =>
    rw [haction, if_pos (by decide)] at h
    exact absurd h (lt_irrefl 0)

/-- **A rule that turns an event away keeps turning it away** when usage grows, as long as a cost
that cannot be measured does not become measurable. -/
theorem turnsAway_of_le (h : u ≤ u')
    (hprice : e.any CostEvidence.unpriceable = true → e'.any CostEvidence.unpriceable = true)
    (haway : (r.evaluateResolvedAt u t basis e now).turnsAway eventId = true) :
    (r.evaluateResolvedAt u' t basis e' now).turnsAway eventId = true := by
  have hcoe : (u : WithTop ℚ) ≤ u' := WithTop.coe_le_coe.2 h
  unfold LimitStatus.turnsAway at haway ⊢
  rw [Bool.or_eq_true] at haway ⊢
  rcases haway with hreject | hshed
  · left
    rw [rejectsIngest_iff] at hreject ⊢
    exact ⟨hreject.1, hreject.2.imp (fun hle => hle.trans hcoe) hprice⟩
  · rcases sheds_iff.1 hshed with ⟨-, hpos, hticket⟩
    have hmono : (r.evaluateResolvedAt u t basis e now).shedFraction ≤
        (r.evaluateResolvedAt u' t basis e' now).shedFraction := LimitRule.shedFraction_mono h
    by_cases hbreach' : t ≤ (u' : WithTop ℚ)
    · -- the lottery has become a hard stop
      exact .inl (rejectsIngest_iff.2 ⟨enforces_of_shedFraction_pos hpos, .inl hbreach'⟩)
    · exact .inr (sheds_iff.2 ⟨hbreach', hpos.trans_le hmono, hticket.trans_le hmono⟩)

end Turn

/-- The status of a rule whose threshold is resolved against measured revenue. -/
def LimitRule.statusFor (r : LimitRule) (revenue : Option ℚ) (e : Option CostEvidence) (now : Time)
    (u : ℚ) : LimitStatus :=
  r.evaluateResolvedAt u (r.threshold.resolve revenue).1 (r.threshold.resolve revenue).2 e now

/-- What holds of a rule at all levels of usage, under some measured revenue and at some time. -/
structure LimitRule.Graduated (r : LimitRule) (revenue : Option ℚ) (now : Time) : Prop where
  /-- what is turned away stays turned away -/
  monotone : ∀ eventId u u' e e', u ≤ u' →
    (e.any CostEvidence.unpriceable = true → e'.any CostEvidence.unpriceable = true) →
    (r.statusFor revenue e now u).turnsAway eventId = true →
    (r.statusFor revenue e' now u').turnsAway eventId = true
  block : r.effectiveActionAt now = .block → ∀ eventId (u : ℚ) e,
    e.any CostEvidence.unpriceable = false → (u : WithTop ℚ) < (r.threshold.resolve revenue).1 →
    (r.statusFor revenue e now u).turnsAway eventId = false
  unpriceable : (r.effectiveActionAt now).enforces = true → ∀ eventId u e,
    e.any CostEvidence.unpriceable = true → (r.statusFor revenue e now u).turnsAway eventId = true
  ramp : ∀ e, Monotone fun u => (r.statusFor revenue e now u).shedFraction
  /-- nothing is shed up to the start of the ramp, if there is revenue to take a share of -/
  start : (∀ pct rev, r.threshold = .revenueShare pct → revenue = some rev → 0 < rev) →
    ∀ e (u : ℚ), (∀ v : ℚ, (r.threshold.resolve revenue).1 = v → u ≤ r.throttleStart * v) →
      (r.statusFor revenue e now u).shedFraction = 0
  full : r.effectiveActionAt now = .throttle → ∀ e (u : ℚ),
    (r.threshold.resolve revenue).1 ≤ u → (r.statusFor revenue e now u).shedFraction = 1

/-- **Rejection grows with usage**, for every rule that is accepted.  A `block` rule whose cost can be
measured turns nothing away below its threshold, and the share a `throttle` rule sheds rises from
nothing at the start of its ramp to everything at the threshold. -/
theorem validate_graduated {display : ℚ → String} {r : LimitRule}
    (h : r.validate display = .ok ()) (revenue : Option ℚ) (now : Time) :
    r.Graduated revenue now := by
  constructor
  · intro eventId u u' e e' hle hprice haway
    exact turnsAway_of_le hle hprice haway
  · intro hblock eventId u e hprice hlt
    -- below the threshold nothing is breached, and a block rule sheds nothing
    have hbreach : ¬ (r.threshold.resolve revenue).1 ≤ (u : WithTop ℚ) := not_le.2 hlt
    have hreject : ¬ (r.statusFor revenue e now u).rejectsIngest = true := by
      unfold LimitRule.statusFor
      rw [rejectsIngest_iff, hprice]
      rintro ⟨-, hle | habsurd⟩
      · exact hbreach hle
      · cases habsurd
    have hshed : ¬ (r.statusFor revenue e now u).sheds eventId = true := by
      unfold LimitRule.statusFor
      rw [sheds_iff, LimitRule.shedFraction_eq, hblock, if_pos (by decide)]
      rintro ⟨-, hpos, -⟩
      exact lt_irrefl 0 hpos
    rw [LimitStatus.turnsAway, Bool.or_eq_false_iff]
    exact ⟨Bool.eq_false_iff.2 hreject, Bool.eq_false_iff.2 hshed⟩
  · intro henforces eventId u e hprice
    rw [LimitStatus.turnsAway, Bool.or_eq_true]
    exact .inl (rejectsIngest_iff.2 ⟨henforces, .inr hprice⟩)
  · intro e u u' hle
    exact LimitRule.shedFraction_mono hle
  · intro hrev e u hstart
    unfold LimitRule.statusFor
    -- a threshold that was accepted is positive, and one that is not known sheds nothing
    cases hthreshold : r.threshold with
    | fixed v =>
      rw [hthreshold] at hstart
      exact LimitRule.shedFraction_of_start (LimitRule.pos_of_validate h hthreshold)
        (hstart v rfl)
    | revenueShare pct =>
      cases revenue with
      | none => exact LimitRule.shedFraction_of_unknown
      | some rev =>
        rw [hthreshold] at hstart
        have hpos := LimitRule.share_pos_of_validate h hthreshold (hrev pct rev hthreshold rfl)
        exact LimitRule.shedFraction_of_start hpos (hstart _ rfl)
  · intro hthrottle e u hle
    refine LimitRule.shedFraction_of_breach ?_ hle
    rw [hthrottle, LimitAction.sheds]

/-- A rule with a constant threshold of ten calls. -/
def tenCalls (action : LimitAction) : LimitRule where
  id := "r"
  projectId := "p"
  metric := .costUsd
  window := .day
  threshold := .fixed 10
  action := action

theorem validate_graduated_tenCalls :
    (tenCalls .throttle).validate (fun _ => "") = .ok () ∧
      (tenCalls .throttle).Graduated none 0 :=
  ⟨by decide +kernel, @validate_graduated (fun _ => "") (tenCalls .throttle) (by decide +kernel) none 0⟩

/-- **Two refusals below**: a cost cap over traffic that cannot be priced rejects an event far below
its threshold, and a share of no revenue sheds everything at the start of its ramp. -/
theorem cap_rejects_below :
    (¬ ∀ (r : LimitRule) (now : Time) (e : Option CostEvidence) (u : ℚ) (eventId : String),
      r.validate (fun _ => "") = .ok () → r.effectiveActionAt now = .block →
      (u : WithTop ℚ) < (r.threshold.resolve none).1 →
      (r.statusFor none e now u).turnsAway eventId = false) ∧
    ¬ ∀ (r : LimitRule) (revenue : ℚ) (now : Time) (u v : ℚ),
      r.validate (fun _ => "") = .ok () → r.effectiveActionAt now = .throttle →
      (r.threshold.resolve (some revenue)).1 = v → u = r.throttleStart * v →
      (r.statusFor (some revenue) none now u).shedFraction = 0 := by
  constructor
  · intro h
    have hrejected := h (tenCalls .block) 0
      (some { pricedCalls := 0, unpricedCalls := 1, imputedCostUsd := 0,
              clientReportedCostUsd := 0, unpriceable := true })
      0 "e" (by decide +kernel) (by decide) (by decide +kernel)
    revert hrejected
    decide +kernel
  · intro h
    have hshed := h { tenCalls .throttle with threshold := .revenueShare 80 } 0 0 0 0
      (by decide +kernel) (by decide) (by decide +kernel) (by decide +kernel)
    revert hshed
    decide +kernel

end LightTrack
