import LightTrack.Core.Limits
import Mathlib.Algebra.Group.Basic
import Mathlib.Algebra.BigOperators.Group.List.Basic
import Mathlib.Tactic.Ring

/-! # Rolling usage

`Usage` is the snapshot limits are evaluated against.  Snapshots form a
commutative group under `plus` and `minus`, so a rolling total is an exact sum.

The comparable cost figure is not the stored sum: `costForLimits` charges each
unpriced call the mean cost of a priced one.
-/

namespace LightTrack

/-- Aggregate usage for a project over a time window. -/
@[ext] structure Usage where
  costUsd : ℚ
  calls : Int
  tokens : Int
  unpricedCalls : Int
  clientCostUsd : ℚ
  deriving DecidableEq

namespace Usage

/-- `Usage::default`. -/
def default : Usage := ⟨0, 0, 0, 0, 0⟩

/-- Sum two usage snapshots. -/
def plus (u v : Usage) : Usage where
  costUsd := u.costUsd + v.costUsd
  calls := u.calls + v.calls
  tokens := u.tokens + v.tokens
  unpricedCalls := u.unpricedCalls + v.unpricedCalls
  clientCostUsd := u.clientCostUsd + v.clientCostUsd

/-- Subtract one snapshot from another, the inverse of `plus`. -/
def minus (u v : Usage) : Usage where
  costUsd := u.costUsd - v.costUsd
  calls := u.calls - v.calls
  tokens := u.tokens - v.tokens
  unpricedCalls := u.unpricedCalls - v.unpricedCalls
  clientCostUsd := u.clientCostUsd - v.clientCostUsd

instance : Zero Usage := ⟨default⟩
instance : Add Usage := ⟨plus⟩
instance : Sub Usage := ⟨minus⟩
instance : Neg Usage := ⟨fun u => default.minus u⟩

@[simp] theorem zero_costUsd : (0 : Usage).costUsd = 0 := rfl
@[simp] theorem zero_calls : (0 : Usage).calls = 0 := rfl
@[simp] theorem zero_tokens : (0 : Usage).tokens = 0 := rfl
@[simp] theorem zero_unpricedCalls : (0 : Usage).unpricedCalls = 0 := rfl
@[simp] theorem zero_clientCostUsd : (0 : Usage).clientCostUsd = 0 := rfl
@[simp] theorem add_costUsd (u v : Usage) : (u + v).costUsd = u.costUsd + v.costUsd := rfl
@[simp] theorem add_calls (u v : Usage) : (u + v).calls = u.calls + v.calls := rfl
@[simp] theorem add_tokens (u v : Usage) : (u + v).tokens = u.tokens + v.tokens := rfl
@[simp] theorem add_unpricedCalls (u v : Usage) :
    (u + v).unpricedCalls = u.unpricedCalls + v.unpricedCalls := rfl
@[simp] theorem add_clientCostUsd (u v : Usage) :
    (u + v).clientCostUsd = u.clientCostUsd + v.clientCostUsd := rfl
@[simp] theorem neg_costUsd (u : Usage) : (-u).costUsd = -u.costUsd := zero_sub _
@[simp] theorem neg_calls (u : Usage) : (-u).calls = -u.calls := zero_sub _
@[simp] theorem neg_tokens (u : Usage) : (-u).tokens = -u.tokens := zero_sub _
@[simp] theorem neg_unpricedCalls (u : Usage) : (-u).unpricedCalls = -u.unpricedCalls := zero_sub _
@[simp] theorem neg_clientCostUsd (u : Usage) : (-u).clientCostUsd = -u.clientCostUsd := zero_sub _

instance : AddCommGroup Usage where
  add_assoc u v w := by ext <;> simp [add_assoc]
  zero_add u := by ext <;> simp
  add_zero u := by ext <;> simp
  add_comm u v := by ext <;> simp [add_comm]
  neg_add_cancel u := by ext <;> simp
  sub_eq_add_neg u v := by
    ext
    · exact (sub_eq_add_neg u.costUsd v.costUsd).trans (by simp)
    · exact (sub_eq_add_neg u.calls v.calls).trans (by simp)
    · exact (sub_eq_add_neg u.tokens v.tokens).trans (by simp)
    · exact (sub_eq_add_neg u.unpricedCalls v.unpricedCalls).trans (by simp)
    · exact (sub_eq_add_neg u.clientCostUsd v.clientCostUsd).trans (by simp)
  nsmul := nsmulRec
  zsmul := zsmulRec

theorem plus_eq_add (u v : Usage) : u.plus v = u + v := rfl

/-! ## The figures limits read -/

/-- Provenance of the snapshot's cost. Each unpriced call is imputed the mean cost of a
priced call of the same window. -/
def costEvidence (u : Usage) : CostEvidence :=
  let priced := u.calls - u.unpricedCalls
  let imputed : ℚ :=
    if 0 < priced ∧ 0 < u.unpricedCalls then u.costUsd / priced * u.unpricedCalls else 0
  { pricedCalls := max priced 0
    unpricedCalls := u.unpricedCalls
    imputedCostUsd := imputed
    clientReportedCostUsd := u.clientCostUsd
    unpriceable := decide (0 < u.unpricedCalls ∧ priced ≤ 0) }

/-- The cost figure a cost limit is evaluated against: stored plus imputed. -/
def costForLimits (u : Usage) : ℚ := u.costUsd + u.costEvidence.imputedCostUsd

/-- The value of `metric` in this snapshot. -/
def metricValue (u : Usage) : LimitMetric → ℚ
  | .costUsd => u.costForLimits
  | .calls => u.calls
  | .tokens => u.tokens

end Usage

/-- `evaluate_rule_resolved_at`: a cost rule carries its evidence. -/
def evaluateRuleResolvedAt (rule : LimitRule) (usage : Usage) (threshold : WithTop ℚ)
    (basis : ThresholdBasis) (now : Time) : LimitStatus :=
  let evidence := if rule.metric = .costUsd then some usage.costEvidence else none
  rule.evaluateResolvedAt (usage.metricValue rule.metric) threshold basis evidence now

/-- One event's contribution to rolling usage. The token counters wrap as `u64`s before the
cast. -/
def eventContribution (ev : LlmEvent) : Usage :=
  let cost := ev.costUsd.getD 0
  { costUsd := cost
    calls := 1
    tokens := asI64 (ev.usage.input + ev.usage.output)
    unpricedCalls := if ev.costUsd.isNone then 1 else 0
    clientCostUsd := if ev.costIsClientReported then cost else 0 }

/-! ## Sums of contributions -/

/-- The usage of the entries of `l` that satisfy `keep`. -/
def usageOf {α : Type*} (keep : α → Bool) (contrib : α → Usage) (l : List α) : Usage :=
  ((l.filter keep).map contrib).sum

section usageOf

variable {α : Type*} {keep keep' : α → Bool} {contrib contrib' : α → Usage}

@[simp] theorem usageOf_nil : usageOf keep contrib [] = 0 := rfl

theorem usageOf_cons (a : α) (l : List α) :
    usageOf keep contrib (a :: l) =
      (if keep a then contrib a else 0) + usageOf keep contrib l := by
  unfold usageOf
  by_cases h : keep a <;> simp [h]

theorem usageOf_append (l l' : List α) :
    usageOf keep contrib (l ++ l') = usageOf keep contrib l + usageOf keep contrib l' := by
  simp [usageOf]

theorem usageOf_congr {l : List α}
    (h : ∀ a ∈ l, keep a = keep' a ∧ (keep a = true → contrib a = contrib' a)) :
    usageOf keep contrib l = usageOf keep' contrib' l := by
  induction l with
  | nil => rfl
  | cons a l ih =>
    obtain ⟨hkeep, hcontrib⟩ := h a (List.mem_cons_self ..)
    rw [usageOf_cons, usageOf_cons, ih fun b hb => h b (List.mem_cons_of_mem _ hb), ← hkeep]
    by_cases ha : keep a
    · rw [if_pos ha, if_pos ha, hcontrib ha]
    · rw [if_neg ha, if_neg ha]

theorem usageOf_map {β : Type*} (f : β → α) (l : List β) :
    usageOf keep contrib (l.map f) = usageOf (keep ∘ f) (contrib ∘ f) l := by
  unfold usageOf
  rw [List.filter_map, List.map_map]

end usageOf

end LightTrack
