import LightTrack.Core.PolicyConvergence
import LightTrack.Lib.Run
import Mathlib.Logic.Function.Basic

/-! # The guardrail sweep

A sweep lists the policies and the rules of a project, asks what should change and writes what the
cooldown lets through.  The cooldown is kept in memory, by origin, and holds the last attempt;
withdrawals are not cooled down.

* `foldlM_writes` : which writes of a sweep are made,
* `applyPolicies_pair` : what a sweep leaves under the origin of a pair,
* `sweep_keeps` : a sweep leaves a pair's rule in force until the next one,
* `guardrail_never_lapses` : and so does every run of sweeps.
-/

namespace LightTrack

/-! ## The cooldown -/

/-- `PolicyCooldowns`, the instant of the last attempt by origin. A sweep that panics ends the task
that sweeps, so no sweep meets a poisoned lock. -/
abbrev PolicyCooldowns := String → Option Time

/-- `PolicyCooldowns::allow`. -/
def PolicyCooldowns.allow (seen : PolicyCooldowns) (origin : String) (cooldownSecs : UInt64)
    (now : Time) : Except Overflow (Bool × PolicyCooldowns) :=
  match seen origin with
  | none => .ok (true, Function.update seen origin (some now))
  | some last => do
    let cooldown ← Time.ofSeconds (asI64 cooldownSecs)
    if now - last < cooldown then return (false, seen)
    else return (true, Function.update seen origin (some now))

/-- Whether the cooldown of an origin is over. -/
def PolicyCooldowns.isOver (seen : PolicyCooldowns) (origin : String) (cooldownSecs : UInt64)
    (now : Time) : Bool :=
  (seen origin).all fun last => decide (asI64 cooldownSecs * Time.second ≤ now - last)

/-- An attempt is allowed, and recorded, when the cooldown is over. -/
theorem PolicyCooldowns.allow_eq_ok {seen seen' : PolicyCooldowns} {origin : String}
    {cooldownSecs : UInt64} {now : Time} {allowed : Bool}
    (h : seen.allow origin cooldownSecs now = .ok (allowed, seen')) :
    allowed = seen.isOver origin cooldownSecs now ∧
      seen' = if allowed then Function.update seen origin (some now) else seen := by
  unfold allow at h
  unfold isOver
  cases hseen : seen origin with
  | none =>
    simp only [hseen, Except.ok.injEq, Prod.mk.injEq] at h
    rcases h with ⟨rfl, rfl⟩
    exact ⟨rfl, rfl⟩
  | some last =>
    simp only [hseen, Traverse.bind_eq_ok_iff] at h
    rcases h with ⟨cooldown, hcooldown, h⟩
    rw [Time.ofSeconds_eq_ok hcooldown] at h
    by_cases hearly : now - last < asI64 cooldownSecs * Time.second
    · simp only [hearly, if_true, pure, Except.pure, Except.ok.injEq, Prod.mk.injEq] at h
      rcases h with ⟨rfl, rfl⟩
      exact ⟨by simpa using hearly, rfl⟩
    · simp only [hearly, if_false, pure, Except.pure, Except.ok.injEq, Prod.mk.injEq] at h
      rcases h with ⟨rfl, rfl⟩
      exact ⟨by simpa using hearly, rfl⟩

theorem PolicyCooldowns.allow_first {seen : PolicyCooldowns} {origin : String}
    {cooldownSecs : UInt64} {now : Time} (hseen : seen origin = none) :
    seen.allow origin cooldownSecs now =
      .ok (true, Function.update seen origin (some now)) := by
  unfold allow
  rw [hseen]

theorem PolicyCooldowns.allow_again {seen : PolicyCooldowns} {origin : String}
    {cooldownSecs : UInt64} {last now : Time} {cooldown : Int} (hseen : seen origin = some last)
    (hcooldown : Time.ofSeconds (asI64 cooldownSecs) = .ok cooldown) :
    seen.allow origin cooldownSecs now =
      if now - last < cooldown then .ok (false, seen)
      else .ok (true, Function.update seen origin (some now)) := by
  unfold allow
  simp only [hseen, hcooldown]
  rfl

/-- `str::starts_with`. -/
def startsWith (s pre : String) : Bool := pre.toList.isPrefixOf s.toList

/-- The cooldown of the policy an origin names; none is no cooldown. -/
def cooldownFor (policies : List MarginPolicy) (origin : String) : UInt64 :=
  ((policies.find? fun p => startsWith origin (POLICY_ORIGIN_PREFIX ++ p.id ++ ":")).map
    MarginPolicy.cooldownSecs).getD 0

/-- An origin starts with a policy's prefix when the policy gives it to some subject. -/
theorem startsWith_iff {p : MarginPolicy} {origin : String} :
    startsWith origin (POLICY_ORIGIN_PREFIX ++ p.id ++ ":") = true ↔
      ∃ subject, p.originFor subject = origin := by
  unfold startsWith MarginPolicy.originFor
  rw [List.isPrefixOf_iff_prefix]
  constructor
  · rintro ⟨subject, h⟩
    refine ⟨String.ofList subject, String.ext_iff.2 ?_⟩
    rw [String.toList_append, String.toList_ofList, h]
  · rintro ⟨subject, rfl⟩
    exact ⟨subject.toList, (String.toList_append ..).symm⟩

theorem cooldownFor_pair {policies : List MarginPolicy} {x : MarginPolicy × MarginRow}
    (halone : IsAlone policies x) (hx : x.1 ∈ policies) :
    cooldownFor policies (pairOrigin x) = x.1.cooldownSecs := by
  have hself : startsWith (pairOrigin x) (POLICY_ORIGIN_PREFIX ++ x.1.id ++ ":") = true :=
    startsWith_iff.2 ⟨x.2.key, rfl⟩
  unfold cooldownFor
  cases hfind : policies.find? fun p =>
      startsWith (pairOrigin x) (POLICY_ORIGIN_PREFIX ++ p.id ++ ":") with
  | none => exact absurd hself (List.find?_eq_none.1 hfind x.1 hx)
  | some p =>
    have hstarts : startsWith (pairOrigin x) (POLICY_ORIGIN_PREFIX ++ p.id ++ ":") = true := by
      simpa using List.find?_some hfind
    rcases startsWith_iff.1 hstarts with ⟨subject, hsubject⟩
    rw [(halone p (List.mem_of_find?_eq_some hfind) subject hsubject).1]
    rfl

/-! ## One sweep -/

/-- What a sweep works on: the limit rules of the project and the cooldowns. -/
structure Guardrails where
  rules : List LimitRule
  cooldowns : PolicyCooldowns

/-- `GuardrailOutcome`, as far as this pass counts. -/
structure GuardrailOutcome where
  rulesCreated : ℕ := 0
  rulesUpdated : ℕ := 0
  rulesRemoved : ℕ := 0

/-- `GuardrailOutcome::total`. -/
def GuardrailOutcome.total (out : GuardrailOutcome) : ℕ :=
  out.rulesCreated + out.rulesUpdated + out.rulesRemoved

/-- The change, for the rules of a project. -/
def RuleChange.inProject (project : String) : RuleChange → RuleChange
  | create r => .create { r with projectId := project }
  | update r => .update { r with projectId := project }
  | delete id => .delete id

/-- `apply_one`. -/
def applyOne (project : String) (rules : List LimitRule) (out : GuardrailOutcome) :
    RuleChange → List LimitRule × GuardrailOutcome
  | .create r => ((RuleChange.create r).inProject project |>.apply rules,
      { out with rulesCreated := out.rulesCreated + 1 })
  | .update r => ((RuleChange.update r).inProject project |>.apply rules,
      { out with rulesUpdated := out.rulesUpdated + 1 })
  | .delete id => ((RuleChange.delete id).apply rules,
      { out with rulesRemoved := out.rulesRemoved + 1 })

/-- One change of a sweep: a write waits for the cooldown, a withdrawal does not. -/
def applyCooled (project : String) (policies : List MarginPolicy) (now : Time)
    (a : Guardrails × GuardrailOutcome) (change : RuleChange) :
    Except Overflow (Guardrails × GuardrailOutcome) :=
  match change.origin with
  | none =>
    let done := applyOne project a.1.rules a.2 change
    .ok ({ a.1 with rules := done.1 }, done.2)
  | some origin => do
    let attempt ← a.1.cooldowns.allow origin (cooldownFor policies origin) now
    if attempt.1 then
      let done := applyOne project a.1.rules a.2 change
      return (⟨done.1, attempt.2⟩, done.2)
    else return (⟨a.1.rules, attempt.2⟩, a.2)

/-- What a sweep reads besides the rules: the enabled policies of the project, the margin picture,
and the ids it would mint. -/
structure Sweep where
  newId : ℕ → String
  policies : List MarginPolicy
  rows : List MarginRow
  forecasts : List MarginForecast

/-- `apply_policies`. -/
def applyPolicies (project : String) (w : Sweep) (now : Time) (g : Guardrails) :
    Except Overflow (Guardrails × GuardrailOutcome) :=
  if w.policies.isEmpty then .ok (g, {})
  else do
    let changes ← evaluatePolicies w.newId w.policies w.rows w.forecasts g.rules now
    changes.foldlM (applyCooled project w.policies now) (g, {})

theorem applyOne_eq (project : String) (rules : List LimitRule) (out : GuardrailOutcome)
    (c : RuleChange) :
    (applyOne project rules out c).1 = (c.inProject project).apply rules ∧
      (applyOne project rules out c).2.total = out.total + 1 := by
  cases c with
  | create r => exact ⟨rfl, by simp [applyOne, GuardrailOutcome.total]; omega⟩
  | update r => exact ⟨rfl, by simp [applyOne, GuardrailOutcome.total]; omega⟩
  | delete id => exact ⟨rfl, by simp [applyOne, GuardrailOutcome.total]; omega⟩

theorem origin_inProject (project : String) (c : RuleChange) :
    (c.inProject project).origin = c.origin := by
  cases c <;> rfl

/-- A change that the cooldown lets through is made, one that it blocks is not. -/
theorem applyCooled_eq_ok {project : String} {policies : List MarginPolicy} {now : Time}
    {a a' : Guardrails × GuardrailOutcome} {c : RuleChange} {origin : String}
    (hc : c.origin = some origin) (h : applyCooled project policies now a c = .ok a') :
    let cooled := a.1.cooldowns.isOver origin (cooldownFor policies origin) now
    a'.1.rules = (if cooled then (c.inProject project).apply a.1.rules else a.1.rules) ∧
      a'.1.cooldowns = (if cooled then Function.update a.1.cooldowns origin (some now)
        else a.1.cooldowns) := by
  intro cooled
  unfold applyCooled at h
  simp only [hc, Traverse.bind_eq_ok_iff] at h
  rcases h with ⟨⟨allowed, seen⟩, hallow, h⟩
  rcases PolicyCooldowns.allow_eq_ok hallow with ⟨hallowed, hseen⟩
  have hover : cooled = allowed := hallowed.symm
  rw [hover]
  cases allowed with
  | true =>
    simp only [if_true, pure, Except.pure, Except.ok.injEq] at h hseen ⊢
    rw [← h]
    exact ⟨(applyOne_eq ..).1, hseen⟩
  | false =>
    simp only [Bool.false_eq_true, if_false, pure, Except.pure, Except.ok.injEq] at h hseen ⊢
    rw [← h]
    exact ⟨rfl, hseen⟩

/-- A change of no origin is made. -/
theorem applyCooled_none {project : String} {policies : List MarginPolicy} {now : Time}
    {a a' : Guardrails × GuardrailOutcome} {c : RuleChange} (hc : c.origin = none)
    (h : applyCooled project policies now a c = .ok a') :
    a'.1.rules = (c.inProject project).apply a.1.rules ∧ a'.1.cooldowns = a.1.cooldowns := by
  unfold applyCooled at h
  simp only [hc, Except.ok.injEq] at h
  rw [← h]
  exact ⟨(applyOne_eq ..).1, rfl⟩

theorem applyCooled_of_allow {project : String} {policies : List MarginPolicy} {now : Time}
    {g : Guardrails} {out : GuardrailOutcome} {c : RuleChange} {origin : String} {allowed : Bool}
    {seen : PolicyCooldowns} (hc : c.origin = some origin)
    (hallow : g.cooldowns.allow origin (cooldownFor policies origin) now = .ok (allowed, seen)) :
    applyCooled project policies now (g, out) c =
      .ok (if allowed then
        (⟨(applyOne project g.rules out c).1, seen⟩, (applyOne project g.rules out c).2)
      else (⟨g.rules, seen⟩, out)) := by
  unfold applyCooled
  simp only [hc, hallow]
  cases allowed <;> rfl

/-- A write of another origin leaves the origin's cooldown alone; it is made or not. -/
theorem applyCooled_other {project : String} {policies : List MarginPolicy} {now : Time}
    {a b : Guardrails × GuardrailOutcome} {c : RuleChange} {origin : String}
    (hc : c.origin ≠ some origin) (hb : applyCooled project policies now a c = .ok b) :
    b.1.cooldowns origin = a.1.cooldowns origin ∧
      ∃ kept : List RuleChange, kept.Sublist [c] ∧
        b.1.rules = applyChanges a.1.rules (kept.map (RuleChange.inProject project)) := by
  cases hco : c.origin with
  | none =>
    rcases applyCooled_none hco hb with ⟨hbrules, hbseen⟩
    exact ⟨by rw [hbseen], [c], List.Sublist.refl _, hbrules⟩
  | some k =>
    have hk : origin ≠ k := by
      rintro rfl
      exact hc hco
    rcases applyCooled_eq_ok hco hb with ⟨hbrules, hbseen⟩
    by_cases hover : a.1.cooldowns.isOver k (cooldownFor policies k) now = true
    · rw [if_pos hover] at hbrules hbseen
      exact ⟨by rw [hbseen, Function.update_of_ne hk], [c], List.Sublist.refl _, hbrules⟩
    · rw [if_neg hover] at hbrules hbseen
      exact ⟨by rw [hbseen], [], List.nil_sublist _, hbrules⟩

/-- **The writes of a sweep** that are made: of an origin with one write, that one when the cooldown
of the origin was over, and then the attempt is recorded. -/
theorem foldlM_writes {project : String} {policies : List MarginPolicy} {now : Time}
    {origin : String} {writes : List RuleChange} {a a' : Guardrails × GuardrailOutcome}
    (hone : (writes.filter fun c => c.origin = some origin).length ≤ 1)
    (h : writes.foldlM (applyCooled project policies now) a = .ok a') :
    let cooled := a.1.cooldowns.isOver origin (cooldownFor policies origin) now
    let own := writes.filter fun c => c.origin = some origin
    ∃ made : List RuleChange, made.Sublist writes ∧
      a'.1.rules = applyChanges a.1.rules (made.map (RuleChange.inProject project)) ∧
      (made.filter fun c => c.origin = some origin) = (if cooled then own else []) ∧
      a'.1.cooldowns origin =
        (if cooled = true ∧ own ≠ [] then some now else a.1.cooldowns origin) := by
  induction writes generalizing a with
  | nil =>
    intro cooled own
    have hsame : a = a' := Except.ok.inj h
    refine ⟨[], List.Sublist.refl _, by rw [← hsame]; rfl, ?_, ?_⟩
    · simp [own]
    · rw [← hsame, if_neg]
      rintro ⟨-, hne⟩
      exact hne rfl
  | cons c writes ih =>
    intro cooled own
    rw [List.foldlM_cons] at h
    rcases Traverse.bind_eq_ok_iff.1 h with ⟨b, hb, hrest⟩
    have hone' : (writes.filter fun c => c.origin = some origin).length ≤ 1 :=
      ((List.sublist_cons_self c writes).filter _).length_le.trans hone
    rcases ih hone' hrest with ⟨made, hsub, hrules, hmade, hseen⟩
    by_cases hc : c.origin = some origin
    · -- the one write of the origin: none is left behind it
      have hown : own = c :: writes.filter fun c => c.origin = some origin :=
        List.filter_cons_of_pos (by simpa using hc)
      have hnil : (writes.filter fun c => c.origin = some origin) = [] := by
        have hlen : own.length ≤ 1 := hone
        rw [hown, List.length_cons] at hlen
        exact List.eq_nil_of_length_eq_zero (by omega)
      have hmade' : (made.filter fun c => c.origin = some origin) = [] :=
        List.sublist_nil.1 (hnil ▸ hsub.filter _)
      rcases applyCooled_eq_ok hc hb with ⟨hbrules, hbseen⟩
      rw [hnil] at hown hseen
      rw [if_neg fun hne => hne.2 rfl] at hseen
      cases hover : cooled with
      | true =>
        have hover' : a.1.cooldowns.isOver origin (cooldownFor policies origin) now = true := hover
        rw [hover', if_pos rfl] at hbrules hbseen
        refine ⟨c :: made, hsub.cons_cons c, ?_, ?_, ?_⟩
        · rw [hrules, hbrules]
          rfl
        · rw [List.filter_cons_of_pos (by simpa using hc), hmade', hown]
          rfl
        · rw [hseen, hbseen, Function.update_self, hown, if_pos ⟨rfl, List.cons_ne_nil _ _⟩]
      | false =>
        have hover' : a.1.cooldowns.isOver origin (cooldownFor policies origin) now = false := hover
        rw [hover', if_neg Bool.false_ne_true] at hbrules hbseen
        refine ⟨made, hsub.cons c, ?_, hmade', ?_⟩
        · rw [hrules, hbrules]
        · rw [hseen, hbseen, if_neg fun hne => Bool.false_ne_true hne.1]
    · -- a write of another origin leaves the origin's cooldown alone
      have hown : own = writes.filter fun c => c.origin = some origin :=
        List.filter_cons_of_neg (by simpa using hc)
      rcases applyCooled_other hc hb with ⟨hbseen, kept, hkept, hbrules⟩
      have hover : b.1.cooldowns.isOver origin (cooldownFor policies origin) now = cooled := by
        unfold PolicyCooldowns.isOver
        rw [hbseen]
        rfl
      have hkept' : (kept.filter fun c => c.origin = some origin) = [] := by
        rw [List.filter_eq_nil_iff]
        intro c' hc'
        rw [List.mem_singleton.1 (hkept.subset hc')]
        simpa using hc
      refine ⟨kept ++ made, hkept.append hsub, ?_, ?_, ?_⟩
      · rw [hrules, hbrules, List.map_append, applyChanges_append]
      · rw [List.filter_append, hkept', List.nil_append, hmade, hover, hown]
      · rw [hseen, hover, hbseen, hown]

/-- Withdrawals are all made. -/
theorem foldlM_delete {project : String} {policies : List MarginPolicy} {now : Time}
    {ids : List String} {a a' : Guardrails × GuardrailOutcome}
    (h : (ids.map RuleChange.delete).foldlM (applyCooled project policies now) a = .ok a') :
    a'.1.rules = applyChanges a.1.rules (ids.map .delete) ∧
      a'.1.cooldowns = a.1.cooldowns := by
  induction ids generalizing a with
  | nil =>
    have hsame : a = a' := Except.ok.inj h
    rw [← hsame]
    exact ⟨rfl, rfl⟩
  | cons id ids ih =>
    rw [List.map_cons, List.foldlM_cons] at h
    rcases Traverse.bind_eq_ok_iff.1 h with ⟨b, hb, hrest⟩
    have hnone : (RuleChange.delete id).origin = none := rfl
    rcases applyCooled_none hnone hb with ⟨hbrules, hbseen⟩
    rcases ih hrest with ⟨hrules, hseen⟩
    exact ⟨by rw [hrules, hbrules]; rfl, hseen.trans hbseen⟩

theorem writesOver_inProject {existing : List LimitRule} {project : String} {c : RuleChange}
    (h : WritesOver existing c) : WritesOver existing (c.inProject project) := by
  cases c with
  | create r => exact h
  | update r => exact h
  | delete id => exact h

theorem filter_map_inProject {project : String} {k : Option String} (cs : List RuleChange) :
    ((cs.map (RuleChange.inProject project)).filter fun c => c.origin = k) =
      (cs.filter fun c => c.origin = k).map (RuleChange.inProject project) := by
  rw [List.filter_map]
  congr 1
  refine List.filter_congr fun c _ => ?_
  simp [origin_inProject]

/-- What the callers promise of a sweep over a rule set. -/
def Sweep.Inputs (w : Sweep) (rules : List LimitRule) : Prop :=
  SweepInputs w.newId w.policies w.rows rules

/-- The pairs the policies of a sweep act on. -/
def Sweep.pairs (w : Sweep) : List (MarginPolicy × MarginRow) :=
  firingPairs w.policies w.rows w.forecasts

/-- A sweep over policies makes some of the writes and all the withdrawals of the pass. -/
theorem applyPolicies_eq_ok {project : String} {w : Sweep} {now : Time} {g : Guardrails}
    {a : Guardrails × GuardrailOutcome} (hw : w.policies ≠ [])
    (h : applyPolicies project w now g = .ok a) :
    (∀ x ∈ w.pairs, ExpiryFits now x.1) ∧
      ∃ b, (passWrites w.newId g.rules now w.pairs).foldlM
          (applyCooled project w.policies now) (g, {}) = .ok b ∧
        a.1.rules = applyChanges b.1.rules
          ((reapedIds w.policies w.rows w.forecasts g.rules now).map .delete) ∧
        a.1.cooldowns = b.1.cooldowns := by
  unfold applyPolicies at h
  rw [if_neg (by simpa using hw)] at h
  rcases Traverse.bind_eq_ok_iff.1 h with ⟨changes, hchanges, hfold⟩
  rcases evaluatePolicies_eq_ok_iff'.1 hchanges with ⟨hfits, rfl⟩
  rw [List.foldlM_append] at hfold
  rcases Traverse.bind_eq_ok_iff.1 hfold with ⟨b, hb, hdeletes⟩
  exact ⟨hfits, b, hb, foldlM_delete hdeletes⟩

/-- The writes a sweep makes, as they are for a pair. -/
theorem applyPolicies_made {project : String} {w : Sweep} {now : Time} {g : Guardrails}
    {a : Guardrails × GuardrailOutcome} (hinputs : w.Inputs g.rules)
    (h : applyPolicies project w now g = .ok a) {x : MarginPolicy × MarginRow}
    (hx : x ∈ w.pairs) (halone : IsAlone w.policies x) :
    let cooled := g.cooldowns.isOver (pairOrigin x) x.1.cooldownSecs now
    ∃ (made : List RuleChange) (n : ℕ), made.Sublist (passWrites w.newId g.rules now w.pairs) ∧
      a.1.rules = applyChanges g.rules (made.map (RuleChange.inProject project) ++
        (reapedIds w.policies w.rows w.forecasts g.rules now).map .delete) ∧
      (made.filter fun c => c.origin = some (pairOrigin x)) =
        (if cooled then (proposed g.rules now (w.newId n) x).toList else []) ∧
      a.1.cooldowns (pairOrigin x) =
        (if cooled = true ∧ proposed g.rules now (w.newId n) x ≠ none then some now
          else g.cooldowns (pairOrigin x)) := by
  intro cooled
  have hpolicy := (mem_firingPairs.1 hx).1
  rcases applyPolicies_eq_ok (List.ne_nil_of_mem hpolicy) h with ⟨-, b, hb, hrules, hseen⟩
  have hpick : ∃ n, ((passWrites w.newId g.rules now w.pairs).filter fun c =>
      c.origin = some (pairOrigin x)) = (proposed g.rules now (w.newId n) x).toList :=
    hinputs.passWrites_origin halone hx
  rcases hpick with ⟨n, hn⟩
  have hone : ((passWrites w.newId g.rules now w.pairs).filter fun c =>
      c.origin = some (pairOrigin x)).length ≤ 1 := by
    rw [hn]
    cases proposed g.rules now (w.newId n) x <;> simp
  rcases foldlM_writes hone hb with ⟨made, hsub, hbrules, hmade, hbseen⟩
  have hover : (g, ({} : GuardrailOutcome)).1.cooldowns.isOver (pairOrigin x)
      (cooldownFor w.policies (pairOrigin x)) now = cooled := by
    rw [cooldownFor_pair halone hpolicy]
  rw [hover, hn] at hmade hbseen
  refine ⟨made, n, hsub, by rw [hrules, hbrules, applyChanges_append], hmade, ?_⟩
  rw [hseen, hbseen]
  congr 1
  cases proposed g.rules now (w.newId n) x <;> simp

/-- **Under the origin of a pair** a sweep leaves what the cooldown let through of the pass. -/
theorem applyPolicies_pair {project : String} {w : Sweep} {now : Time} {g : Guardrails}
    {a : Guardrails × GuardrailOutcome} (hinputs : w.Inputs g.rules)
    (h : applyPolicies project w now g = .ok a) {x : MarginPolicy × MarginRow}
    (hx : x ∈ w.pairs) (halone : IsAlone w.policies x) :
    let cooled := g.cooldowns.isOver (pairOrigin x) x.1.cooldownSecs now
    ∃ n,
      withOrigin (some (pairOrigin x)) a.1.rules =
        pairView (isOwned w.policies (pairOrigin x)) g.rules now (some (pairOrigin x))
          (if cooled then (proposed g.rules now (w.newId n) x).map (RuleChange.inProject project)
            else none) ∧
      a.1.cooldowns (pairOrigin x) =
        (if cooled = true ∧ proposed g.rules now (w.newId n) x ≠ none then some now
          else g.cooldowns (pairOrigin x)) := by
  intro cooled
  rcases applyPolicies_made hinputs h hx halone with ⟨made, n, hsub, hrules, hmade, hseen⟩
  refine ⟨n, ?_, hseen⟩
  have hwrites : ∀ c ∈ made.map (RuleChange.inProject project), WritesOver g.rules c := by
    intro c hc
    rcases List.mem_map.1 hc with ⟨c', hc', rfl⟩
    exact writesOver_inProject (hinputs.passWrites_writesOver c' (hsub.subset hc'))
  rw [hrules]
  refine withOrigin_pair hinputs.ruleIds hwrites hx ?_
  rw [filter_map_inProject, hmade]
  cases hover : cooled with
  | true =>
    have hover' : g.cooldowns.isOver (pairOrigin x) x.1.cooldownSecs now = true := hover
    rw [hover', if_pos rfl, if_pos rfl]
    cases proposed g.rules now (w.newId n) x <;> rfl
  | false =>
    have hover' : g.cooldowns.isOver (pairOrigin x) x.1.cooldownSecs now = false := hover
    rw [hover', if_neg Bool.false_ne_true, if_neg Bool.false_ne_true]
    rfl

/-! ## Ids -/

/-- The id of a created rule. -/
def RuleChange.createdId : RuleChange → Option String
  | create r => some r.id
  | update _ => none
  | delete _ => none

/-- Writes add the ids of the created rules. -/
theorem applyChanges_ids {existing rules : List LimitRule} {changes : List RuleChange}
    (hc : ∀ c ∈ changes, WritesOver existing c) :
    (applyChanges rules changes).map LimitRule.id =
      rules.map LimitRule.id ++ changes.filterMap RuleChange.createdId := by
  induction changes generalizing rules with
  | nil => exact (List.append_nil _).symm
  | cons c changes ih =>
    have hrest : (applyChanges (c.apply rules) changes).map LimitRule.id = _ :=
      ih fun c' hc' => hc c' (List.mem_cons_of_mem _ hc')
    have hcons : applyChanges rules (c :: changes) = applyChanges (c.apply rules) changes := rfl
    rw [hcons, hrest]
    cases c with
    | create r => simp [RuleChange.apply, RuleChange.createdId]
    | update r =>
      have hids : (RuleChange.apply rules (.update r)).map LimitRule.id =
          rules.map LimitRule.id := by
        show (rules.map fun r' => if r'.id = r.id then r else r').map LimitRule.id = _
        rw [List.map_map]
        refine List.map_congr_left fun r' _ => ?_
        by_cases hid : r'.id = r.id
        · simp [hid]
        · simp [hid]
      rw [hids]
      rfl
    | delete id => exact (hc _ (List.mem_cons_self ..)).elim

/-- The ids of the rules a pass creates are minted one after the other. -/
theorem createdIds_sublist {newId : ℕ → String} {existing : List LimitRule} {now : Time}
    {pairs : List (MarginPolicy × MarginRow)} :
    ((passWrites newId existing now pairs).filterMap RuleChange.createdId).Sublist
      (pairs.zipIdx.map fun x => newId x.2) := by
  unfold passWrites
  rw [List.filterMap_filterMap]
  induction pairs.zipIdx with
  | nil => exact List.Sublist.refl _
  | cons x l ih =>
    have hx : (proposed existing now (newId x.2) x.1).bind RuleChange.createdId = none ∨
        (proposed existing now (newId x.2) x.1).bind RuleChange.createdId =
          some (newId x.2) := by
      unfold proposed
      cases existing.find? fun r => r.origin == some (pairOrigin x.1) with
      | none => exact Or.inr rfl
      | some current =>
        left
        by_cases hdue : isDue now x.1 current = true
        · simp [hdue, RuleChange.createdId]
        · simp [hdue]
    rw [List.map_cons, List.filterMap_cons]
    rcases hx with hx | hx
    · simp only [hx]
      exact ih.cons _
    · simp only [hx]
      exact ih.cons_cons _

/-- **Ids stay apart** over a sweep. -/
theorem applyPolicies_ids {project : String} {w : Sweep} {now : Time} {g : Guardrails}
    {a : Guardrails × GuardrailOutcome} (hinputs : w.Inputs g.rules)
    (hminted : Function.Injective w.newId) (h : applyPolicies project w now g = .ok a)
    {x : MarginPolicy × MarginRow} (hx : x ∈ w.pairs) (halone : IsAlone w.policies x) :
    (a.1.rules.map LimitRule.id).Nodup := by
  rcases applyPolicies_made hinputs h hx halone with ⟨made, -, hsub, hrules, -⟩
  have hwrites : ∀ c ∈ made.map (RuleChange.inProject project), WritesOver g.rules c := by
    intro c hc
    rcases List.mem_map.1 hc with ⟨c', hc', rfl⟩
    exact writesOver_inProject (hinputs.passWrites_writesOver c' (hsub.subset hc'))
  have hcreated : ((made.map (RuleChange.inProject project)).filterMap
      RuleChange.createdId).Sublist (w.pairs.zipIdx.map fun x => w.newId x.2) := by
    have hsame : (made.map (RuleChange.inProject project)).filterMap RuleChange.createdId =
        made.filterMap RuleChange.createdId := by
      rw [List.filterMap_map]
      refine List.filterMap_congr fun c _ => ?_
      cases c <;> rfl
    rw [hsame]
    exact (hsub.filterMap _).trans createdIds_sublist
  have hnodup : (w.pairs.zipIdx.map fun x => w.newId x.2).Nodup := by
    have hmap : (w.pairs.zipIdx.map fun x => w.newId x.2) =
        (w.pairs.zipIdx.map Prod.snd).map w.newId := by
      rw [List.map_map]
      rfl
    rw [hmap, List.zipIdx_map_snd]
    exact List.Nodup.map hminted List.nodup_range'
  rw [hrules, applyChanges_append, applyChanges_delete]
  refine List.Nodup.sublist (List.filter_sublist.map _) ?_
  rw [applyChanges_ids hwrites, List.nodup_append]
  refine ⟨hinputs.ruleIds, hnodup.sublist hcreated, ?_⟩
  rintro id hid id' hid' rfl
  rcases List.mem_map.1 hid with ⟨r, hr, rfl⟩
  rcases List.mem_map.1 (hcreated.subset hid') with ⟨y, -, hy⟩
  exact hinputs.fresh y.2 r hr hy.symm

/-! ## Until the next sweep -/

theorem numSeconds_mul_le {d : Int} (h : 0 < Time.numSeconds d) :
    Time.numSeconds d * Time.second ≤ d := by
  have hd : 0 ≤ d := by
    by_contra hd
    have hneg : 0 ≤ (-d).tdiv Time.second :=
      Int.tdiv_nonneg (neg_nonneg.2 (not_le.1 hd).le) (by decide)
    rw [Int.neg_tdiv] at hneg
    exact absurd (neg_nonneg.1 hneg) (not_le.2 h)
  unfold Time.numSeconds
  rw [Int.tdiv_eq_ediv_of_nonneg hd]
  exact Int.ediv_mul_le d (by decide)

/-- A rule that is not due lives on for more than a third of the policy's expiry. -/
theorem outlives_of_not_isDue {now next : Time} {x : MarginPolicy × MarginRow} {r : LimitRule}
    (hgap : 3 * (next - now) ≤ asI64 x.1.expirySecs * Time.second)
    (hpos : 0 < asI64 x.1.expirySecs) (h : isDue now x r = false) : r.isExpired next = false := by
  have hrenew : renewalDue r (pairRule r.id now x) now = false := (Bool.or_eq_false_iff.1 h).2
  unfold renewalDue at hrenew
  cases hexpires : r.expiresAt with
  | none =>
    rw [hexpires] at hrenew
    cases hrenew
  | some expiresAt =>
    rw [hexpires] at hrenew
    have hwant : (pairRule r.id now x).expiresAt =
        some (now + asI64 x.1.expirySecs * Time.second) := rfl
    have hfull : Time.numSeconds (now + asI64 x.1.expirySecs * Time.second - now) =
        asI64 x.1.expirySecs := by
      unfold Time.numSeconds
      rw [add_sub_cancel_left, Int.mul_tdiv_cancel _ (by decide)]
    simp only [hwant, hfull, decide_eq_false_iff_not, not_le, max_lt_iff] at hrenew
    rcases hrenew with ⟨hlong, -⟩
    unfold LimitRule.isExpired
    rw [hexpires, Option.any_some, decide_eq_false_iff_not, not_le]
    -- in whole seconds the rule lives on for more than a third of its life
    have hsecs : 0 < Time.numSeconds (expiresAt - now) := by
      generalize Time.numSeconds (expiresAt - now) = left at hlong ⊢
      generalize asI64 x.1.expirySecs = secs at hlong hpos
      omega
    have hleft := numSeconds_mul_le hsecs
    have hthird : asI64 x.1.expirySecs * Time.second < 3 * (expiresAt - now) := by
      calc asI64 x.1.expirySecs * Time.second
          < Time.numSeconds (expiresAt - now) * 3 * Time.second :=
            Int.mul_lt_mul_of_pos_right hlong (by decide)
        _ = 3 * (Time.numSeconds (expiresAt - now) * Time.second) := by ring
        _ ≤ 3 * (expiresAt - now) := Int.mul_le_mul_of_nonneg_left hleft (by decide)
    have hlt : 3 * (next - now) < 3 * (expiresAt - now) := lt_of_le_of_lt hgap hthird
    exact (sub_lt_sub_iff_right now).1 (lt_of_mul_lt_mul_left hlt (by decide))

/-- A rule that was just written lives on until the next sweep. -/
theorem written_outlives {now next : Time} {x : MarginPolicy × MarginRow} {r : LimitRule}
    (hgap : 3 * (next - now) ≤ asI64 x.1.expirySecs * Time.second)
    (hpos : 0 < asI64 x.1.expirySecs)
    (hexpires : r.expiresAt = some (now + asI64 x.1.expirySecs * Time.second)) :
    r.isExpired next = false := by
  have hlife : 0 < asI64 x.1.expirySecs * Time.second := mul_pos hpos (by decide)
  unfold LimitRule.isExpired
  rw [hexpires, Option.any_some, decide_eq_false_iff_not, not_le]
  have hthird : ∀ gap life : Int, 3 * gap ≤ life → 0 < life → gap < life := by
    intro gap life hle hlt
    omega
  exact lt_add_of_sub_left_lt (hthird _ _ hgap hlife)

/-- **A sweep keeps a pair's rule in force** until the next one: the rule it finds is in force, and
unless that one lasts, the cooldown lets a write through. -/
theorem sweep_keeps {project : String} {w : Sweep} {now next : Time} {g : Guardrails}
    {a : Guardrails × GuardrailOutcome} (hinputs : w.Inputs g.rules)
    (h : applyPolicies project w now g = .ok a) {x : MarginPolicy × MarginRow}
    (hx : x ∈ w.pairs) (halone : IsAlone w.policies x) (hpos : 0 < asI64 x.1.expirySecs)
    (hgap : 3 * (next - now) ≤ asI64 x.1.expirySecs * Time.second)
    (hfound : ∀ r, (withOrigin (some (pairOrigin x)) g.rules).head? = some r →
      r.isExpired now = false)
    (hcooled : (∀ r, (withOrigin (some (pairOrigin x)) g.rules).head? = some r →
      r.isExpired next = true) →
        g.cooldowns.isOver (pairOrigin x) x.1.cooldownSecs now = true) :
    ∃ r, (withOrigin (some (pairOrigin x)) a.1.rules).head? = some r ∧
      r.isExpired next = false ∧
      (a.1.cooldowns (pairOrigin x) = some now ∧
          r.expiresAt = some (now + asI64 x.1.expirySecs * Time.second) ∨
        a.1.cooldowns (pairOrigin x) = g.cooldowns (pairOrigin x) ∧
          (withOrigin (some (pairOrigin x)) g.rules).head? = some r) := by
  rcases applyPolicies_pair hinputs h hx halone with ⟨n, hview, hseen⟩
  rw [hview, hseen, proposed_of_head]
  cases hplace : withOrigin (some (pairOrigin x)) g.rules with
  | nil =>
    -- no rule in place: one is created
    rw [hplace] at hcooled
    have hover := hcooled fun r hr => by cases hr
    have hwritten : (pairRule (w.newId n) now x).expiresAt =
        some (now + asI64 x.1.expirySecs * Time.second) := rfl
    rw [hover, if_pos rfl, List.head?_nil]
    refine ⟨{ pairRule (w.newId n) now x with projectId := project }, ?_, ?_, ?_⟩
    · rw [Option.map_some]
      unfold RuleChange.inProject
      rw [pairView_create hplace, List.head?_cons]
    · exact written_outlives hgap hpos hwritten
    · left
      exact ⟨if_pos ⟨rfl, Option.some_ne_none _⟩, hwritten⟩
  | cons current rest =>
    rw [hplace] at hcooled hfound
    have hlive := hfound current (List.head?_cons ..)
    rw [List.head?_cons]
    by_cases hwrite : g.cooldowns.isOver (pairOrigin x) x.1.cooldownSecs now = true ∧
        isDue now x current = true
    · -- the rule in place is written anew
      have hwritten : (pairRule current.id now x).expiresAt =
          some (now + asI64 x.1.expirySecs * Time.second) := rfl
      have hid : ({ pairRule current.id now x with projectId := project } : LimitRule).id =
          current.id := rfl
      simp only [hwrite.1, hwrite.2, if_true]
      refine ⟨{ pairRule current.id now x with projectId := project }, ?_, ?_, ?_⟩
      · rw [Option.map_some]
        unfold RuleChange.inProject
        rw [pairView_update hinputs.ruleIds hplace hid, hlive, Bool.and_false,
          if_neg Bool.false_ne_true]
        rfl
      · exact written_outlives hgap hpos hwritten
      · left
        exact ⟨if_pos ⟨trivial, Option.some_ne_none _⟩, hwritten⟩
    · -- the rule in place is left as it is
      have hnone : (if g.cooldowns.isOver (pairOrigin x) x.1.cooldownSecs now = true then
          (if isDue now x current = true then
            some (RuleChange.update (pairRule current.id now x)) else none).map
              (RuleChange.inProject project) else none) = none := by
        by_cases hover : g.cooldowns.isOver (pairOrigin x) x.1.cooldownSecs now = true
        · rw [if_pos hover, if_neg fun hdue => hwrite ⟨hover, hdue⟩]
          rfl
        · rw [if_neg hover]
      have hkept : keptRules (isOwned w.policies (pairOrigin x)) now (current :: rest) =
          current :: keptRules (isOwned w.policies (pairOrigin x)) now rest :=
        List.filter_cons_of_pos (by rw [hlive, Bool.and_false]; rfl)
      simp only
      rw [hnone, pairView_none hinputs.ruleIds, hplace, hkept]
      refine ⟨current, List.head?_cons .., ?_, Or.inr ⟨if_neg ?_, rfl⟩⟩
      · by_cases hover : g.cooldowns.isOver (pairOrigin x) x.1.cooldownSecs now = true
        · refine outlives_of_not_isDue hgap hpos ?_
          rw [← Bool.not_eq_true]
          exact fun hdue => hwrite ⟨hover, hdue⟩
        · rw [← Bool.not_eq_true]
          intro hexp
          refine hover (hcooled fun r hr => ?_)
          rw [List.head?_cons, Option.some.injEq] at hr
          rw [← hr]
          exact hexp
      · rintro ⟨hover, hne⟩
        refine hne (if_neg fun hdue => hwrite ⟨hover, hdue⟩)

/-! ## Runs of sweeps -/

/-- The rule a sweep finds under an origin. -/
def Guardrails.found (g : Guardrails) (origin : String) : Option LimitRule :=
  g.rules.find? fun r => r.origin == some origin

theorem Guardrails.found_eq (g : Guardrails) (origin : String) :
    g.found origin = (withOrigin (some origin) g.rules).head? := by
  unfold found withOrigin
  rw [List.head?_filter]
  congr 1
  funext r
  simp [beq_eq_decide]

/-- The guardrails between two sweeps, and the instant of the coming one. -/
structure Swept where
  guardrails : Guardrails
  due : Time

/-- One sweep, at the instant it was due; the label tells what it reads and when the sweep after it
is due.  Policies have different ids, rows different keys, and what is minted is new. -/
structure SweepStep (project : String) (s : Swept) (l : Sweep × Time) (s' : Swept) : Prop where
  policyIds : (l.1.policies.map MarginPolicy.id).Nodup
  rowKeys : (l.1.rows.map MarginRow.key).Nodup
  minted : Function.Injective l.1.newId
  fresh : ∀ n, ∀ r ∈ s.guardrails.rules, r.id ≠ l.1.newId n
  swept : ∃ out, applyPolicies project l.1 s.due s.guardrails = .ok (s'.guardrails, out)
  later : s.due ≤ s'.due
  next : s'.due = l.2

section

variable {project : String} {p : MarginPolicy} {subject : String}

/-- A sweep at which the policy acts on the subject, at most a third of its expiry before the next. -/
structure Stands (p : MarginPolicy) (subject : String) (s : Swept) (l : Sweep × Time) : Prop where
  fires : ∃ row, (p, row) ∈ l.1.pairs ∧ row.key = subject
  soon : 3 * (l.2 - s.due) ≤ p.expirySecs.toNat * Time.second

/-- No other policy listed spells the origin. -/
def SpelledOnce (p : MarginPolicy) (subject : String) (_ : Swept) (l : Sweep × Time) : Prop :=
  ∀ q ∈ l.1.policies, ∀ subject', q.originFor subject' = p.originFor subject → q = p

/-- Unless the rule the sweep finds lasts until the next one, the cooldown of the origin is over. -/
def CooledDown (p : MarginPolicy) (subject : String) (s : Swept) (l : Sweep × Time) : Prop :=
  (∀ r, s.guardrails.found (p.originFor subject) = some r → r.isExpired l.2 = true) →
    s.guardrails.cooldowns.isOver (p.originFor subject) p.cooldownSecs s.due = true

/-- Ids differ, and the rule the coming sweep will find, if any, is in force then. -/
structure Sound (p : MarginPolicy) (subject : String) (s : Swept) : Prop where
  ruleIds : (s.guardrails.rules.map LimitRule.id).Nodup
  live : ∀ r, s.guardrails.found (p.originFor subject) = some r → r.isExpired s.due = false

/-- The policy's rule for the subject is present and in force when the coming sweep is due. -/
def InForce (p : MarginPolicy) (subject : String) (s : Swept) : Prop :=
  ∃ r ∈ s.guardrails.rules, r.origin = some (p.originFor subject) ∧ r.isExpired s.due = false

/-- The expiry of a valid policy is a positive `i64`, when it is an `i64`. -/
theorem asI64_expiry (hv : p.validate = .ok ())
    (hexpiry : (p.expirySecs.toNat : Int) < i64Bound) :
    asI64 p.expirySecs = p.expirySecs.toNat ∧ 0 < asI64 p.expirySecs := by
  have hsecs := asI64_of_lt hexpiry
  have hne : p.expirySecs ≠ 0 := (MarginPolicy.validate_eq_ok_iff.1 hv).2.2.2
  refine ⟨hsecs, ?_⟩
  rw [hsecs]
  have hpos : 0 < p.expirySecs.toNat := by
    rw [Nat.pos_iff_ne_zero]
    intro hzero
    exact hne (UInt64.toNat_inj.1 hzero)
  exact_mod_cast hpos

/-- One sweep keeps the rule the next sweep finds in force. -/
theorem sound_step {s s' : Swept} {l : Sweep × Time} (hv : p.validate = .ok ())
    (hexpiry : (p.expirySecs.toNat : Int) < i64Bound) (hstep : SweepStep project s l s')
    (hstands : Stands p subject s l) (honce : SpelledOnce p subject s l)
    (hcooled : CooledDown p subject s l) (hsound : Sound p subject s) :
    Sound p subject s' ∧ ∃ r, s'.guardrails.found (p.originFor subject) = some r ∧
      r.isExpired s'.due = false ∧
      (s'.guardrails.cooldowns (p.originFor subject) = some s.due ∧
          r.expiresAt = some (s.due + asI64 p.expirySecs * Time.second) ∨
        s'.guardrails.cooldowns (p.originFor subject) =
            s.guardrails.cooldowns (p.originFor subject) ∧
          s.guardrails.found (p.originFor subject) = some r) := by
  rcases asI64_expiry hv hexpiry with ⟨hsecs, hpos⟩
  rcases hstands.fires with ⟨row, hrow, rfl⟩
  rcases hstep.swept with ⟨out, hswept⟩
  have hinputs : l.1.Inputs s.guardrails.rules :=
    ⟨hstep.policyIds, hstep.rowKeys, hsound.ruleIds, hstep.fresh⟩
  -- no other policy spells this origin
  have halone : IsAlone l.1.policies (p, row) := by
    intro q hq subject' heq
    have hqp : q = p := honce q hq subject' heq
    refine ⟨hqp, ?_⟩
    rw [hqp] at heq
    exact originFor_subject heq
  -- the next sweep is due within a third of the expiry
  have hgap : 3 * (s'.due - s.due) ≤ asI64 p.expirySecs * Time.second := by
    rw [hsecs, hstep.next]
    exact hstands.soon
  have hlive := hsound.live
  unfold CooledDown at hcooled
  rw [← hstep.next] at hcooled
  simp only [Guardrails.found_eq] at hcooled hlive ⊢
  rcases sweep_keeps hinputs hswept hrow halone hpos hgap hlive hcooled with
    ⟨r, hfound, hexp, hseen⟩
  refine ⟨⟨applyPolicies_ids hinputs hstep.minted hswept hrow halone, ?_⟩, r, hfound, hexp, hseen⟩
  intro r' hr'
  rw [Guardrails.found_eq] at hr'
  have hsame : r = r' := Option.some.inj (hfound.symm.trans hr')
  rw [← hsame]
  exact hexp

theorem inForce_of_found {s : Swept} {r : LimitRule}
    (hfound : s.guardrails.found (p.originFor subject) = some r)
    (hexp : r.isExpired s.due = false) : InForce p subject s := by
  have horigin : r.origin = some (p.originFor subject) := by
    simpa using List.find?_some hfound
  exact ⟨r, List.mem_of_find?_eq_some hfound, horigin, hexp⟩

/-- **A standing guardrail never lapses**, in every run of sweeps that find its cooldown over
whenever the rule they find does not last until the next sweep. -/
theorem guardrail_never_lapses {s s' : Swept} {ls : List (Sweep × Time)}
    (hv : p.validate = .ok ()) (hexpiry : (p.expirySecs.toNat : Int) < i64Bound)
    (hstart : Sound p subject s)
    (hrun : Sys.Run (Sys.Restrict (SweepStep project) fun s l =>
      Stands p subject s l ∧ SpelledOnce p subject s l ∧ CooledDown p subject s l) s ls s')
    (hls : ls ≠ []) : InForce p subject s' := by
  cases hrun with
  | nil => exact absurd rfl hls
  | snoc hrun hlast =>
    have hsound := hrun.invariant (I := Sound p subject) hstart fun a l b hstep ha =>
      (sound_step hv hexpiry hstep.1 hstep.2.1 hstep.2.2.1 hstep.2.2.2 ha).1
    rcases (sound_step hv hexpiry hlast.1 hlast.2.1 hlast.2.2.1 hlast.2.2.2 hsound).2 with
      ⟨r, hfound, hexp, -⟩
    exact inForce_of_found hfound hexp

/-- The last attempt was the write of the rule in place, or there was none since the start. -/
def Recorded (p : MarginPolicy) (subject : String) (s : Swept) : Prop :=
  s.guardrails.cooldowns (p.originFor subject) = none ∨
    ∃ written r, s.guardrails.cooldowns (p.originFor subject) = some written ∧
      s.guardrails.found (p.originFor subject) = some r ∧
      r.expiresAt = some (written + asI64 p.expirySecs * Time.second)

/-- A cooldown of at most two thirds of the expiry is over when the rule has to be renewed. -/
theorem cooledDown_of_recorded {s : Swept} {l : Sweep × Time} (hv : p.validate = .ok ())
    (hexpiry : (p.expirySecs.toNat : Int) < i64Bound)
    (hcooldown : 3 * asI64 p.cooldownSecs ≤ 2 * asI64 p.expirySecs)
    (hstands : Stands p subject s l) (hrecorded : Recorded p subject s) :
    CooledDown p subject s l := by
  intro hlapses
  unfold PolicyCooldowns.isOver
  rcases hrecorded with hnone | ⟨written, r, hwritten, hfound, hexpires⟩
  · rw [hnone]
    rfl
  · have hexp := hlapses r hfound
    have hgap := hstands.soon
    unfold LimitRule.isExpired at hexp
    rw [hexpires, Option.any_some, decide_eq_true_eq] at hexp
    rw [← (asI64_expiry hv hexpiry).1] at hgap
    rw [hwritten, Option.all_some, decide_eq_true_eq]
    -- the rule was written two thirds of its life ago
    have hthirds : ∀ secs cooldown unit t now next : Int, 0 < unit → 3 * cooldown ≤ 2 * secs →
        3 * (next - now) ≤ secs * unit → t + secs * unit ≤ next →
          cooldown * unit ≤ now - t := by
      intro secs cooldown unit t now next hunit hle hnext hlast
      have hmul : 3 * (cooldown * unit) ≤ 2 * (secs * unit) := by
        calc 3 * (cooldown * unit) = 3 * cooldown * unit := by ring
          _ ≤ 2 * secs * unit := Int.mul_le_mul_of_nonneg_right hle hunit.le
          _ = 2 * (secs * unit) := by ring
      omega
    exact hthirds _ _ _ _ _ _ (by decide) hcooldown hgap hexp

/-- **With a cooldown of at most two thirds of the expiry** a standing guardrail never lapses, in
every run of sweeps since the process started. -/
theorem never_lapses_of_cooldown {s s' : Swept} {ls : List (Sweep × Time)}
    (hv : p.validate = .ok ()) (hexpiry : (p.expirySecs.toNat : Int) < i64Bound)
    (hcooldown : 3 * asI64 p.cooldownSecs ≤ 2 * asI64 p.expirySecs) (hstart : Sound p subject s)
    (hfresh : s.guardrails.cooldowns (p.originFor subject) = none)
    (hrun : Sys.Run (Sys.Restrict (SweepStep project) fun s l =>
      Stands p subject s l ∧ SpelledOnce p subject s l) s ls s')
    (hls : ls ≠ []) : InForce p subject s' := by
  have hstep : ∀ a l b, Sys.Restrict (SweepStep project)
      (fun s l => Stands p subject s l ∧ SpelledOnce p subject s l) a l b →
        Sound p subject a ∧ Recorded p subject a → (Sound p subject b ∧ Recorded p subject b) ∧
          InForce p subject b := by
    rintro a l b ⟨hstep, hstands, honce⟩ ⟨hsound, hrecorded⟩
    have hcooled := cooledDown_of_recorded hv hexpiry hcooldown hstands hrecorded
    rcases sound_step hv hexpiry hstep hstands honce hcooled hsound with
      ⟨hsound', r, hfound, hexp, hseen⟩
    refine ⟨⟨hsound', ?_⟩, inForce_of_found hfound hexp⟩
    rcases hseen with ⟨hnow, hexpires⟩ | ⟨hsame, hbefore⟩
    · exact Or.inr ⟨a.due, r, hnow, hfound, hexpires⟩
    · rcases hrecorded with hnone | ⟨written, r', hwritten, hfound', hexpires⟩
      · exact Or.inl (hsame.trans hnone)
      · have hr : r = r' := Option.some.inj (hbefore.symm.trans hfound')
        rw [← hr] at hexpires
        exact Or.inr ⟨written, r, hsame.trans hwritten, hfound, hexpires⟩
  cases hrun with
  | nil => exact absurd rfl hls
  | snoc hrun hlast =>
    have hinv := hrun.invariant (I := fun a => Sound p subject a ∧ Recorded p subject a)
      ⟨hstart, Or.inl hfresh⟩ fun a l b hab ha => (hstep a l b hab ha).1
    exact (hstep _ _ _ hlast hinv).2

end

/-! ## Sweeps over one policy and one subject -/

/-- A sweep that finds one subject at a loss; the ids it mints have more than `k` letters. -/
def lossSweep (p : MarginPolicy) (k : ℕ) : Sweep where
  newId n := mintedId (n + k)
  policies := [p]
  rows := [lossRow "cus-a"]
  forecasts := []

/-- The rule a sweep writes for the subject. -/
def sweptRule (p : MarginPolicy) (now : Time) : LimitRule :=
  { pairRule (mintedId 0) now (p, lossRow "cus-a") with projectId := "proj" }

/-- Guardrails and the last attempt for the subject. -/
def sweptBy (p : MarginPolicy) (rules : List LimitRule) (last : Option Time) : Guardrails where
  rules := rules
  cooldowns := Function.update (fun _ => none) (p.originFor "cus-a") last

section

variable {p : MarginPolicy} {k : ℕ} {now last : Time} {rules : List LimitRule}

theorem sweptBy_last (p : MarginPolicy) (rules : List LimitRule) (last : Option Time) :
    (sweptBy p rules last).cooldowns (p.originFor "cus-a") = last := by
  exact Function.update_self (p.originFor "cus-a") last fun _ => none

theorem update_sweptBy (p : MarginPolicy) (rules : List LimitRule) (last : Option Time)
    (now : Time) :
    Function.update (sweptBy p rules last).cooldowns (p.originFor "cus-a") (some now) =
      (sweptBy p rules (some now)).cooldowns := by
  unfold sweptBy
  simp only [Function.update_idem]

theorem mintedId_injective : Function.Injective mintedId := by
  intro n m h
  have hlen := congrArg (fun s => s.toList.length) h
  unfold mintedId at hlen
  simpa using hlen

/-- What a sweep over the one policy does, by the changes it is given. -/
theorem lossSweep_of_changes {g : Guardrails} {changes : List RuleChange}
    (h : evaluatePolicies (lossSweep p k).newId [p] [lossRow "cus-a"] [] g.rules now =
      .ok changes) :
    applyPolicies "proj" (lossSweep p k) now g =
      changes.foldlM (applyCooled "proj" [p] now) (g, {}) := by
  have hpolicies : (lossSweep p k).policies.isEmpty = false := rfl
  unfold applyPolicies
  rw [hpolicies, if_neg Bool.false_ne_true]
  show evaluatePolicies (lossSweep p k).newId [p] [lossRow "cus-a"] [] g.rules now >>= _ = _
  rw [h]
  rfl

/-- A first sweep writes the rule. -/
theorem lossSweep_create
    (h : evaluatePolicies (lossSweep p k).newId [p] [lossRow "cus-a"] [] [] now =
      .ok [.create (pairRule (mintedId 0) now (p, lossRow "cus-a"))]) :
    applyPolicies "proj" (lossSweep p k) now (sweptBy p [] none) =
      .ok (sweptBy p [sweptRule p now] (some now), { rulesCreated := 1 }) := by
  have horigin : (RuleChange.create (pairRule (mintedId 0) now (p, lossRow "cus-a"))).origin =
      some (p.originFor "cus-a") := rfl
  have hallow : (sweptBy p [] none).cooldowns.allow (p.originFor "cus-a")
      (cooldownFor [p] (p.originFor "cus-a")) now =
        .ok (true, (sweptBy p [] (some now)).cooldowns) := by
    rw [PolicyCooldowns.allow_first (sweptBy_last p [] none), update_sweptBy]
  rw [lossSweep_of_changes (g := sweptBy p [] none) h, List.foldlM_cons,
    applyCooled_of_allow horigin hallow]
  rfl

/-- Within the cooldown a write is left out. -/
theorem lossSweep_blocked {g : Guardrails} {id : String} {cooldown : Int}
    {changes : List RuleChange}
    (h : evaluatePolicies (lossSweep p k).newId [p] [lossRow "cus-a"] [] g.rules now =
      .ok (.update (pairRule id now (p, lossRow "cus-a")) :: changes))
    (hlast : g.cooldowns (p.originFor "cus-a") = some last)
    (hcooldown : Time.ofSeconds (asI64 (cooldownFor [p] (p.originFor "cus-a"))) = .ok cooldown)
    (hearly : now - last < cooldown) :
    applyPolicies "proj" (lossSweep p k) now g =
      changes.foldlM (applyCooled "proj" [p] now) (g, {}) := by
  have horigin : (RuleChange.update (pairRule id now (p, lossRow "cus-a"))).origin =
      some (p.originFor "cus-a") := rfl
  have hallow : g.cooldowns.allow (p.originFor "cus-a")
      (cooldownFor [p] (p.originFor "cus-a")) now = .ok (false, g.cooldowns) := by
    rw [PolicyCooldowns.allow_again hlast hcooldown, if_pos hearly]
  rw [lossSweep_of_changes h, List.foldlM_cons, applyCooled_of_allow horigin hallow]
  rfl

/-- After the cooldown the rule is renewed. -/
theorem lossSweep_renew {cooldown : Int} {written : Time}
    (h : evaluatePolicies (lossSweep p k).newId [p] [lossRow "cus-a"] []
      [sweptRule p written] now = .ok [.update (pairRule (mintedId 0) now (p, lossRow "cus-a"))])
    (hcooldown : Time.ofSeconds (asI64 (cooldownFor [p] (p.originFor "cus-a"))) = .ok cooldown)
    (hover : ¬ now - last < cooldown) :
    applyPolicies "proj" (lossSweep p k) now (sweptBy p [sweptRule p written] (some last)) =
      .ok (sweptBy p [sweptRule p now] (some now), { rulesUpdated := 1 }) := by
  have horigin : (RuleChange.update (pairRule (mintedId 0) now (p, lossRow "cus-a"))).origin =
      some (p.originFor "cus-a") := rfl
  have hallow : (sweptBy p [sweptRule p written] (some last)).cooldowns.allow
      (p.originFor "cus-a") (cooldownFor [p] (p.originFor "cus-a")) now =
        .ok (true, (sweptBy p [sweptRule p written] (some now)).cooldowns) := by
    rw [PolicyCooldowns.allow_again (sweptBy_last p _ (some last)) hcooldown, if_neg hover,
      update_sweptBy]
  have hid : (sweptRule p written).id = mintedId 0 := rfl
  have hwritten : (applyOne "proj" [sweptRule p written] {}
      (.update (pairRule (mintedId 0) now (p, lossRow "cus-a")))).1 = [sweptRule p now] :=
    congrArg (fun r => [r]) (if_pos hid)
  have hrules : (sweptBy p [sweptRule p written] (some last)).rules = [sweptRule p written] := rfl
  rw [lossSweep_of_changes (g := sweptBy p [sweptRule p written] (some last)) h, List.foldlM_cons,
    applyCooled_of_allow horigin hallow, if_pos rfl, hrules, hwritten]
  rfl

end

/-- A sweep over the one policy is a step, when the rules in place were minted first. -/
theorem lossSweep_step {p : MarginPolicy} {k : ℕ} {g g' : Guardrails} {now next : Time}
    {out : GuardrailOutcome} (hids : ∀ r ∈ g.rules, r.id = mintedId 0 ∧ k ≠ 0)
    (h : applyPolicies "proj" (lossSweep p k) now g = .ok (g', out)) (hle : now ≤ next) :
    SweepStep "proj" ⟨g, now⟩ (lossSweep p k, next) ⟨g', next⟩ := by
  refine ⟨List.nodup_singleton _, List.nodup_singleton _, ?_, ?_, ⟨out, h⟩, hle, rfl⟩
  · intro n m hnm
    exact Nat.add_right_cancel (mintedId_injective hnm)
  · intro n r hr heq
    rcases hids r hr with ⟨hid, hk⟩
    have hzero : 0 = n + k := mintedId_injective (hid.symm.trans heq)
    omega

/-- The policy acts on the subject in every such sweep. -/
theorem lossSweep_stands {p : MarginPolicy} {k : ℕ} {g : Guardrails} {now next : Time}
    (hacts : actsOn [] p (lossRow "cus-a"))
    (hsoon : 3 * (next - now) ≤ p.expirySecs.toNat * Time.second) :
    Stands p "cus-a" ⟨g, now⟩ (lossSweep p k, next) := by
  refine ⟨⟨lossRow "cus-a", mem_firingPairs.2 ⟨?_, ?_, hacts⟩, rfl⟩, hsoon⟩
  · exact List.mem_singleton_self p
  · exact List.mem_singleton_self _

/-- A policy whose cooldown outlasts its expiry: an hour against five minutes. -/
def shortPolicy : MarginPolicy := { lossPolicy with expirySecs := 300 }

/-- Guardrails with nothing in them. -/
def noGuardrails (p : MarginPolicy) : Swept := ⟨sweptBy p [] none, 0⟩

/-- The guardrails once the short policy's rule was written. -/
def oneGuardrail (p : MarginPolicy) (written : Time) : Guardrails :=
  sweptBy p [sweptRule p written] (some written)

theorem oneGuardrail_ids (p : MarginPolicy) (written : Time) {k : ℕ} (hk : k ≠ 0) :
    ∀ r ∈ (oneGuardrail p written).rules, r.id = mintedId 0 ∧ k ≠ 0 := by
  intro r hr
  rw [List.mem_singleton.1 hr]
  exact ⟨rfl, hk⟩

theorem lossSweep_once {p : MarginPolicy} {k : ℕ} {s : Swept} {next : Time} :
    SpelledOnce p "cus-a" s (lossSweep p k, next) :=
  fun _ hq _ _ => List.mem_singleton.1 hq

/-- A rule that may not be renewed in time is withdrawn, and may not be raised again: four sweeps,
a third of the expiry apart, over a policy that fires at each of them. -/
theorem guardrail_lapses_in_cooldown :
    shortPolicy.validate = .ok () ∧ Sound shortPolicy "cus-a" (noGuardrails shortPolicy) ∧
      ∃ s', Sys.Run (Sys.Restrict (SweepStep "proj") fun s l =>
          Stands shortPolicy "cus-a" s l ∧ SpelledOnce shortPolicy "cus-a" s l)
        (noGuardrails shortPolicy)
        [(lossSweep shortPolicy 0, 100 * Time.second), (lossSweep shortPolicy 1, 200 * Time.second),
          (lossSweep shortPolicy 2, 300 * Time.second),
          (lossSweep shortPolicy 3, 400 * Time.second)] s' ∧
        s'.guardrails.rules = [] ∧ ¬ InForce shortPolicy "cus-a" s' := by
  have hacts : actsOn [] shortPolicy (lossRow "cus-a") := by
    refine ⟨rfl, ?_, ?_⟩
    · show ¬ (40 : ℚ) < 1
      decide +kernel
    · show decide ((-30 : ℚ) < 0) = true
      decide +kernel
  have hcooldown : Time.ofSeconds (asI64 (cooldownFor [shortPolicy]
      (shortPolicy.originFor "cus-a"))) = .ok (3600 * Time.second) := by decide +kernel
  have hlast : (oneGuardrail shortPolicy 0).cooldowns (shortPolicy.originFor "cus-a") = some 0 :=
    sweptBy_last ..
  -- the first sweep raises the rule, the second has nothing to do
  have hfirst : applyPolicies "proj" (lossSweep shortPolicy 0) 0 (sweptBy shortPolicy [] none) =
      .ok (oneGuardrail shortPolicy 0, { rulesCreated := 1 }) :=
    lossSweep_create (by decide +kernel)
  have hsteady : evaluatePolicies (lossSweep shortPolicy 1).newId [shortPolicy] [lossRow "cus-a"]
      [] (oneGuardrail shortPolicy 0).rules (100 * Time.second) = .ok [] := by decide +kernel
  have hsecond : applyPolicies "proj" (lossSweep shortPolicy 1) (100 * Time.second)
      (oneGuardrail shortPolicy 0) = .ok (oneGuardrail shortPolicy 0, {}) :=
    lossSweep_of_changes hsteady
  -- the third may not renew it, and the fourth finds it expired
  have hdue : evaluatePolicies (lossSweep shortPolicy 2).newId [shortPolicy] [lossRow "cus-a"]
      [] (oneGuardrail shortPolicy 0).rules (200 * Time.second) =
        .ok [.update (pairRule (mintedId 0) (200 * Time.second)
          (shortPolicy, lossRow "cus-a"))] := by decide +kernel
  have hthird : applyPolicies "proj" (lossSweep shortPolicy 2) (200 * Time.second)
      (oneGuardrail shortPolicy 0) = .ok (oneGuardrail shortPolicy 0, {}) :=
    lossSweep_blocked hdue hlast hcooldown (by decide)
  have hexpired : evaluatePolicies (lossSweep shortPolicy 3).newId [shortPolicy]
      [lossRow "cus-a"] [] (oneGuardrail shortPolicy 0).rules (300 * Time.second) =
        .ok [.update (pairRule (mintedId 0) (300 * Time.second) (shortPolicy, lossRow "cus-a")),
          .delete (mintedId 0)] := by decide +kernel
  have hfourth : applyPolicies "proj" (lossSweep shortPolicy 3) (300 * Time.second)
      (oneGuardrail shortPolicy 0) =
        .ok (sweptBy shortPolicy [] (some 0), { rulesRemoved := 1 }) :=
    (lossSweep_blocked hexpired hlast hcooldown (by decide)).trans rfl
  have hkept := fun k hk => oneGuardrail_ids shortPolicy 0 (k := k) hk
  have hstep₁ := lossSweep_step (p := shortPolicy) (fun r hr => by cases hr) hfirst
    (by decide : (0 : Time) ≤ 100 * Time.second)
  have hstep₂ := lossSweep_step (hkept 1 (by decide)) hsecond
    (by decide : 100 * Time.second ≤ 200 * Time.second)
  have hstep₃ := lossSweep_step (hkept 2 (by decide)) hthird
    (by decide : 200 * Time.second ≤ 300 * Time.second)
  have hstep₄ := lossSweep_step (hkept 3 (by decide)) hfourth
    (by decide : 300 * Time.second ≤ 400 * Time.second)
  have hone : Sys.Run (Sys.Restrict (SweepStep "proj") fun s l =>
      Stands shortPolicy "cus-a" s l ∧ SpelledOnce shortPolicy "cus-a" s l)
        (noGuardrails shortPolicy) [(lossSweep shortPolicy 0, 100 * Time.second)]
        ⟨oneGuardrail shortPolicy 0, 100 * Time.second⟩ :=
    .single ⟨hstep₁, lossSweep_stands hacts (by decide), lossSweep_once⟩
  have hrun := ((hone.append
    (.single ⟨hstep₂, lossSweep_stands hacts (by decide), lossSweep_once⟩)).append
    (.single ⟨hstep₃, lossSweep_stands hacts (by decide), lossSweep_once⟩)).append
    (.single ⟨hstep₄, lossSweep_stands hacts (by decide), lossSweep_once⟩)
  refine ⟨by decide +kernel, ⟨List.nodup_nil, fun r hr => by cases hr⟩, _, hrun, rfl, ?_⟩
  rintro ⟨r, hr, -⟩
  cases hr

/-- A sweep that renews a rule in the last third of its life. -/
theorem guardrail_never_lapses_sample :
    InForce lossPolicy "cus-a" ⟨oneGuardrail lossPolicy (60000 * Time.second),
      80000 * Time.second⟩ := by
  have hacts : actsOn [] lossPolicy (lossRow "cus-a") := by
    refine ⟨rfl, ?_, ?_⟩
    · show ¬ (40 : ℚ) < 1
      decide +kernel
    · show decide ((-30 : ℚ) < 0) = true
      decide +kernel
  have hcooldown : Time.ofSeconds (asI64 (cooldownFor [lossPolicy]
      (lossPolicy.originFor "cus-a"))) = .ok (3600 * Time.second) := by decide +kernel
  have hdue : evaluatePolicies (lossSweep lossPolicy 1).newId [lossPolicy] [lossRow "cus-a"]
      [] [sweptRule lossPolicy 0] (60000 * Time.second) =
        .ok [.update (pairRule (mintedId 0) (60000 * Time.second)
          (lossPolicy, lossRow "cus-a"))] := by decide +kernel
  have hswept : applyPolicies "proj" (lossSweep lossPolicy 1) (60000 * Time.second)
      (oneGuardrail lossPolicy 0) =
        .ok (oneGuardrail lossPolicy (60000 * Time.second), { rulesUpdated := 1 }) :=
    lossSweep_renew hdue hcooldown (by decide)
  have hstep := lossSweep_step (oneGuardrail_ids lossPolicy 0 (by decide)) hswept
    (by decide : 60000 * Time.second ≤ 80000 * Time.second)
  have hfound : (oneGuardrail lossPolicy 0).found (lossPolicy.originFor "cus-a") =
      some (sweptRule lossPolicy 0) := by decide +kernel
  refine guardrail_never_lapses (s := ⟨oneGuardrail lossPolicy 0, 60000 * Time.second⟩)
    (by decide +kernel) (by decide) ⟨List.nodup_singleton _, ?_⟩
    (.single ⟨hstep, lossSweep_stands hacts (by decide), lossSweep_once, ?_⟩) (List.cons_ne_nil _ _)
  · intro r hr
    rw [← Option.some.inj (hfound.symm.trans hr)]
    decide +kernel
  · intro _
    show (oneGuardrail lossPolicy 0).cooldowns.isOver (lossPolicy.originFor "cus-a")
      lossPolicy.cooldownSecs (60000 * Time.second) = true
    decide +kernel

end LightTrack
