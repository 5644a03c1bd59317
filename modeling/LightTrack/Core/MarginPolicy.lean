import LightTrack.Core.Clock
import LightTrack.Core.Limits
import LightTrack.Lib.Traverse
import Mathlib.Data.List.Nodup

/-! # Margin guardrails

A policy turns a losing customer into a limit rule.  One pass over the margin picture proposes the
rules that should exist and refreshes those that do; a reverse pass withdraws the ones whose
condition has cleared or whose time is up.

* `evaluatePolicies_eq_ok_iff` : when the changes can be computed, and as what,
* `originFor_inj` : an origin names one policy and one subject,
* `isOwned_originFor` : which origins the reverse pass takes for its own.
-/

namespace LightTrack

/-! ## Policies -/

/-- `PolicyTrigger`. -/
inductive PolicyTrigger where
  | belowPct (pct : ℚ)
  | negativeMargin
  | erosionEtaDays (days : ℚ)

/-- `PolicyAction`. -/
inductive PolicyAction where
  | warn
  | capToRevenue (factor : ℚ)
  | throttle
  | block

/-- `PolicyAction::limit_action`. -/
def PolicyAction.limitAction : PolicyAction → LimitAction
  | warn => .alert
  | capToRevenue _ => .throttle
  | throttle => .throttle
  | block => .block

/-- `MarginPolicy`. -/
structure MarginPolicy where
  id : String
  projectId : String
  trigger : PolicyTrigger
  minCostUsd : ℚ := 0
  action : PolicyAction
  cooldownSecs : UInt64 := 3600
  expirySecs : UInt64 := 86400
  enabled : Bool := true

/-- Why a policy is refused. Numbers are finite here. -/
inductive PolicyInvalid where
  /-- trigger.erosion_eta_days must be a finite number greater than 0 -/
  | erosionEtaDays (days : ℚ)
  /-- action.cap_to_revenue.factor must be in (0, 10] -/
  | capFactor (factor : ℚ)
  /-- min_cost_usd must be a finite number >= 0 -/
  | minCostUsd (cost : ℚ)
  /-- expiry_secs must be greater than 0 -/
  | expirySecs
  deriving DecidableEq

namespace MarginPolicy

/-- `MarginPolicy::validate`. -/
def validate (p : MarginPolicy) : Except PolicyInvalid Unit := do
  if let .erosionEtaDays d := p.trigger then
    if ¬ 0 < d then throw (.erosionEtaDays d)
  if let .capToRevenue factor := p.action then
    if ¬ (0 < factor ∧ factor ≤ 10) then throw (.capFactor factor)
  if ¬ 0 ≤ p.minCostUsd then throw (.minCostUsd p.minCostUsd)
  if p.expirySecs = 0 then throw .expirySecs

/-- What a valid policy is. -/
theorem validate_eq_ok_iff {p : MarginPolicy} :
    p.validate = .ok () ↔
      (∀ days, p.trigger = .erosionEtaDays days → 0 < days) ∧
      (∀ factor, p.action = .capToRevenue factor → 0 < factor ∧ factor ≤ 10) ∧
      0 ≤ p.minCostUsd ∧ p.expirySecs ≠ 0 := by
  rcases p with ⟨id, projectId, trigger, minCostUsd, action, cooldownSecs, expirySecs, enabled⟩
  unfold validate
  cases trigger <;> cases action <;>
    simp [bind, Except.bind, throw, throwThe, MonadExceptOf.throw, pure, Except.pure,
      Traverse.ite_error_eq_ok_iff]

end MarginPolicy

/-- `POLICY_ORIGIN_PREFIX`. -/
def POLICY_ORIGIN_PREFIX : String := "margin_policy:"

/-- `MarginPolicy::origin_for`. -/
def MarginPolicy.originFor (p : MarginPolicy) (subject : String) : String :=
  POLICY_ORIGIN_PREFIX ++ p.id ++ ":" ++ subject

/-- `MarginRow`, as far as a policy reads it. -/
structure MarginRow where
  key : String
  llmCostUsd : ℚ
  grossMarginUsd : ℚ
  marginPct : Option ℚ

/-- `MarginForecast`, as far as a policy reads it. -/
structure MarginForecast where
  key : String
  currentlyProfitable : Bool
  etaUnprofitableDays : Option ℚ

/-- `RuleChange`. -/
inductive RuleChange where
  | create (rule : LimitRule)
  | update (rule : LimitRule)
  | delete (id : String)
  deriving DecidableEq

/-- `RuleChange::origin`. -/
def RuleChange.origin : RuleChange → Option String
  | create r | update r => r.origin
  | delete _ => none

/-! ## One pair -/

/-- `fires`. -/
def fires (p : MarginPolicy) (row : MarginRow) (forecasts : List MarginForecast) : Bool :=
  match p.trigger with
  | .belowPct pct =>
    match row.marginPct with
    | some m => decide (m < pct / 100)
    | none => decide (row.grossMarginUsd < 0)
  | .negativeMargin => decide (row.grossMarginUsd < 0)
  | .erosionEtaDays days => forecasts.any fun f =>
      f.key == row.key && f.currentlyProfitable &&
        f.etaUnprofitableDays.any fun e => decide (e ≤ days)

/-- The threshold a fired policy asks for. -/
def desiredThreshold (p : MarginPolicy) (row : MarginRow) : Threshold :=
  match p.action with
  | .capToRevenue factor => .revenueShare (factor * 100)
  | _ => .fixed (max row.llmCostUsd (1 / 100))

/-- The rule a fired policy asks for, with its expiry. -/
def ruleExpiring (id : String) (p : MarginPolicy) (row : MarginRow) (expiresAt : Time) :
    LimitRule where
  id := id
  projectId := ""
  metric := .costUsd
  window := .month
  threshold := desiredThreshold p row
  action := p.action.limitAction
  scope := some (.customer row.key)
  origin := some (p.originFor row.key)
  expiresAt := some expiresAt

/-- `desired_rule`. `id` is what `new_id` mints. -/
def desiredRule (id : String) (p : MarginPolicy) (row : MarginRow) (now : Time) :
    Except Overflow LimitRule := do
  let expiresAt ← Time.addSeconds now (asI64 p.expirySecs)
  return ruleExpiring id p row expiresAt

/-- `differs`. -/
def differs (a b : LimitRule) : Bool :=
  a.metric != b.metric || a.window != b.window || a.threshold != b.threshold ||
    a.action != b.action || a.enabled != b.enabled || a.scope != b.scope

/-- `renewal_due`. -/
def renewalDue (current next : LimitRule) (now : Time) : Bool :=
  match current.expiresAt, next.expiresAt with
  | some cur, some want =>
    decide (Time.numSeconds (cur - now) * 3 ≤ max (Time.numSeconds (want - now)) 1)
  | none, some _ => true
  | _, none => false

/-! ## The passes -/

/-- The enabled policies with the rows they fire for, in the order of the loops. -/
def firingPairs (policies : List MarginPolicy) (rows : List MarginRow)
    (forecasts : List MarginForecast) : List (MarginPolicy × MarginRow) :=
  (policies.filter MarginPolicy.enabled).flatMap fun p =>
    (rows.filter fun row => !(decide (row.llmCostUsd < p.minCostUsd) || !fires p row forecasts)).map
      fun row => (p, row)

/-- What the forward pass proposes for a pair. -/
def proposal (existing : List LimitRule) (now : Time) (id : String)
    (x : MarginPolicy × MarginRow) : Except Overflow (Option RuleChange) := do
  let desired ← desiredRule id x.1 x.2 now
  match existing.find? fun r => r.origin == some (x.1.originFor x.2.key) with
  | none => return some (.create desired)
  | some current =>
    let next := { desired with id := current.id }
    return if differs current next || renewalDue current next now then some (.update next) else none

/-- Whether the reverse pass takes an origin for that of one of the policies. -/
def isOwned (policies : List MarginPolicy) (origin : String) : Bool :=
  match (stripPrefix POLICY_ORIGIN_PREFIX origin).bind (splitOnce ':') with
  | some (policyId, _) => policies.any fun p => p.id == policyId
  | none => false

/-- Whether a rule's time is up. -/
def LimitRule.isExpired (r : LimitRule) (now : Time) : Bool :=
  r.expiresAt.any fun e => decide (e ≤ now)

/-- Whether the reverse pass withdraws a rule. -/
def isReaped (policies : List MarginPolicy) (wanted : List String) (now : Time) (r : LimitRule) :
    Bool :=
  r.origin.any fun origin =>
    isOwned policies origin && (!(wanted.contains origin) || r.isExpired now)

/-- `evaluate_policies`. `newId i` is what the `i`-th call of `new_id` mints. -/
def evaluatePolicies (newId : ℕ → String) (policies : List MarginPolicy) (rows : List MarginRow)
    (forecasts : List MarginForecast) (existing : List LimitRule) (now : Time) :
    Except Overflow (List RuleChange) := do
  let pairs := firingPairs policies rows forecasts
  let proposals ← pairs.zipIdx.mapM fun x => proposal existing now (newId x.2) x.1
  let wanted := pairs.map fun x => x.1.originFor x.2.key
  let reaped := existing.filter (isReaped policies wanted now)
  return proposals.reduceOption ++ reaped.map fun r => .delete r.id

/-! ## What is computed -/

/-- The expiry of a policy's rules is an instant. -/
def ExpiryFits (now : Time) (p : MarginPolicy) : Prop :=
  Time.SecondsFit (asI64 p.expirySecs) ∧ Time.InUtc (now + asI64 p.expirySecs * Time.second)

instance (now : Time) (p : MarginPolicy) : Decidable (ExpiryFits now p) :=
  inferInstanceAs (Decidable (_ ∧ _))

/-- The rule of a pair, when its expiry is an instant. -/
def pairRule (id : String) (now : Time) (x : MarginPolicy × MarginRow) : LimitRule :=
  ruleExpiring id x.1 x.2 (now + asI64 x.1.expirySecs * Time.second)

/-- The origin of a pair. -/
def pairOrigin (x : MarginPolicy × MarginRow) : String := x.1.originFor x.2.key

/-- Whether a sweep would write a rule of a pair anew. -/
def isDue (now : Time) (x : MarginPolicy × MarginRow) (r : LimitRule) : Bool :=
  differs r (pairRule r.id now x) || renewalDue r (pairRule r.id now x) now

/-- What is proposed for a pair, when its expiry is an instant. -/
def proposed (existing : List LimitRule) (now : Time) (id : String)
    (x : MarginPolicy × MarginRow) : Option RuleChange :=
  match existing.find? fun r => r.origin == some (pairOrigin x) with
  | none => some (.create (pairRule id now x))
  | some current =>
    if isDue now x current then some (.update (pairRule current.id now x)) else none

theorem proposal_eq_ok_iff {existing : List LimitRule} {now : Time} {id : String}
    {x : MarginPolicy × MarginRow} {c : Option RuleChange} :
    proposal existing now id x = .ok c ↔
      ExpiryFits now x.1 ∧ c = proposed existing now id x := by
  unfold proposal desiredRule proposed
  simp only [Traverse.bind_eq_ok_iff, Time.addSeconds_eq_ok_iff, pure, Except.pure,
    Except.ok.injEq]
  have hfind : existing.find? (fun r => r.origin == some (pairOrigin x)) =
      existing.find? fun r => r.origin == some (x.1.originFor x.2.key) := rfl
  rw [hfind]
  constructor
  · rintro ⟨_, ⟨_, ⟨hfits, rfl⟩, rfl⟩, hc⟩
    refine ⟨hfits, ?_⟩
    cases hcur : existing.find? fun r => r.origin == some (x.1.originFor x.2.key) with
    | none =>
      rw [hcur] at hc
      exact (Except.ok.inj hc).symm
    | some current =>
      rw [hcur] at hc
      exact (Except.ok.inj hc).symm
  · rintro ⟨hfits, rfl⟩
    refine ⟨_, ⟨_, ⟨hfits, rfl⟩, rfl⟩, ?_⟩
    cases hcur : existing.find? fun r => r.origin == some (x.1.originFor x.2.key) with
    | none => rfl
    | some current => rfl

/-- **The changes** can be computed exactly when every wanted expiry is an instant. -/
theorem evaluatePolicies_eq_ok_iff {newId : ℕ → String} {policies : List MarginPolicy}
    {rows : List MarginRow} {forecasts : List MarginForecast} {existing : List LimitRule}
    {now : Time} {changes : List RuleChange} :
    evaluatePolicies newId policies rows forecasts existing now = .ok changes ↔
      (∀ x ∈ firingPairs policies rows forecasts, ExpiryFits now x.1) ∧
        changes = ((firingPairs policies rows forecasts).zipIdx.map fun x =>
            proposed existing now (newId x.2) x.1).reduceOption ++
          (existing.filter (isReaped policies
            ((firingPairs policies rows forecasts).map pairOrigin) now)).map
              fun r => .delete r.id := by
  unfold evaluatePolicies
  simp only [Traverse.bind_eq_ok_iff, Traverse.mapM_eq_map_iff fun _ _ => proposal_eq_ok_iff, pure,
    Except.pure, Except.ok.injEq]
  have hall : (∀ x ∈ (firingPairs policies rows forecasts).zipIdx, ExpiryFits now x.1.1) ↔
      ∀ x ∈ firingPairs policies rows forecasts, ExpiryFits now x.1 := by
    constructor
    · intro h x hx
      rcases List.mem_iff_getElem.1 hx with ⟨i, hi, rfl⟩
      exact h (_, i) (List.mk_mem_zipIdx_iff_getElem?.2 (List.getElem?_eq_getElem hi))
    · intro h x hx
      exact h x.1 (List.fst_mem_of_mem_zipIdx hx)
  rw [hall]
  constructor
  · rintro ⟨_, ⟨hfits, rfl⟩, rfl⟩
    exact ⟨hfits, rfl⟩
  · rintro ⟨hfits, rfl⟩
    exact ⟨_, ⟨hfits, rfl⟩, rfl⟩

/-! ## Origins -/

theorem originFor_toList (p : MarginPolicy) (subject : String) :
    (p.originFor subject).toList =
      POLICY_ORIGIN_PREFIX.toList ++ (p.id.toList ++ ':' :: subject.toList) := by
  unfold MarginPolicy.originFor
  simp [String.toList_append]

/-- Behind the prefix, a text that is free of colons is split off whole. -/
theorem split_origin {id subject origin : String} (hid : ':' ∉ id.toList)
    (horigin : origin.toList = POLICY_ORIGIN_PREFIX.toList ++ (id.toList ++ ':' :: subject.toList)) :
    (stripPrefix POLICY_ORIGIN_PREFIX origin).bind (splitOnce ':') = some (id, subject) := by
  unfold stripPrefix
  rw [horigin, List.take_left' rfl, if_pos rfl, List.drop_left' rfl, Option.bind_some,
    splitOnce_of_not_mem (String.toList_ofList ..) hid, String.ofList_toList, String.ofList_toList]

/-- **An origin names** one policy and one subject, when ids are free of colons. -/
theorem originFor_inj {p p' : MarginPolicy} {subject subject' : String} (hp : ':' ∉ p.id.toList)
    (hp' : ':' ∉ p'.id.toList) (h : p.originFor subject = p'.originFor subject') :
    p.id = p'.id ∧ subject = subject' := by
  have hsplit := split_origin hp (originFor_toList p subject)
  rw [h, split_origin hp' (originFor_toList p' subject')] at hsplit
  simp only [Option.some.injEq, Prod.mk.injEq] at hsplit
  exact ⟨hsplit.1.symm, hsplit.2.symm⟩

/-- The same policy gives different subjects different origins, whatever its id. -/
theorem originFor_subject {p : MarginPolicy} {subject subject' : String}
    (h : p.originFor subject = p.originFor subject') : subject = subject' := by
  rw [String.ext_iff, originFor_toList, originFor_toList] at h
  have hcons := List.append_cancel_left (List.append_cancel_left h)
  exact String.ext_iff.2 (List.cons.inj hcons).2

/-- Policies with different ids give the same subject different origins. -/
theorem originFor_id {p p' : MarginPolicy} {subject : String}
    (h : p.originFor subject = p'.originFor subject) : p.id = p'.id := by
  rw [String.ext_iff, originFor_toList, originFor_toList] at h
  exact String.ext_iff.2 (List.append_cancel_right (List.append_cancel_left h))

/-- The reverse pass takes for its own only origins of the policies it was asked about. -/
theorem exists_of_isOwned {policies : List MarginPolicy} {origin : String}
    (h : isOwned policies origin = true) :
    ∃ p ∈ policies, ∃ subject, origin = p.originFor subject := by
  unfold isOwned at h
  cases hsplit : (stripPrefix POLICY_ORIGIN_PREFIX origin).bind (splitOnce ':') with
  | none => simp [hsplit] at h
  | some parts =>
    rcases parts with ⟨policyId, subject⟩
    simp only [hsplit, List.any_eq_true, beq_iff_eq] at h
    rcases h with ⟨p, hp, rfl⟩
    refine ⟨p, hp, subject, ?_⟩
    rcases Option.bind_eq_some_iff.1 hsplit with ⟨rest, hstrip, hrest⟩
    unfold stripPrefix at hstrip
    split_ifs at hstrip with hpre
    have horigin : origin.toList = POLICY_ORIGIN_PREFIX.toList ++ rest.toList := by
      rw [← Option.some.inj hstrip, String.toList_ofList]
      conv_lhs => rw [← List.take_append_drop POLICY_ORIGIN_PREFIX.toList.length origin.toList]
      rw [hpre]
    rw [String.ext_iff, originFor_toList, horigin, splitOnce_toList hrest]

/-- **The reverse pass owns** every origin of a policy whose id is free of colons. -/
theorem isOwned_originFor {policies : List MarginPolicy} {p : MarginPolicy} (hp : p ∈ policies)
    (hid : ':' ∉ p.id.toList) (subject : String) :
    isOwned policies (p.originFor subject) = true := by
  unfold isOwned
  rw [split_origin hid (originFor_toList p subject)]
  simp only [List.any_eq_true, beq_iff_eq]
  exact ⟨p, hp, rfl⟩

end LightTrack
