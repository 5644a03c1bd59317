import LightTrack.Api.ScheduleSweep
import LightTrack.Core.Limits

/-! # The escalation pass

The forecast sweep stamps `escalated_until` on the rules whose breach is forecast, and clears it from
those whose breach no longer is.  It lists the rules of a project, and writes each rule it changes
back whole; operators edit rules between the two.

* `Escalation.next` : what the pass writes,
* `rules_agree` : what the pass keeps of an operator's edits,
* `sweeps_keep_edits` : both sweeps of the deployment.
-/

namespace LightTrack

/-! ## Limit rules -/

/-- What the pass reads of a forecast alert. -/
structure ForecastAlert where
  kind : String
  subject : String
  etaDays : ℚ

/-- Everything but the field that the pass owns. -/
def LimitRule.operatorPart (r : LimitRule) : LimitRule := { r with escalatedUntil := none }

/-- The limit rules, by id. -/
abbrev LimitRuleTable := Keyed LimitRule.id

namespace LimitRuleTable

/-- `create`: a taken id is refused. -/
def create (t : LimitRuleTable) (r : LimitRule) : LimitRuleTable :=
  if hid : r.id ∈ t.rows.map LimitRule.id then t else t.append r hid

/-- The row an `update` writes: every column but the id and the project. -/
def updateRow (project : Option String) (new r : LimitRule) : LimitRule :=
  if r.id = new.id ∧ project.all (fun p => r.projectId == p) then
    { new with id := r.id, projectId := r.projectId }
  else r

theorem updateRow_id (project : Option String) (new r : LimitRule) :
    (updateRow project new r).id = r.id := by
  unfold updateRow
  split_ifs <;> rfl

/-- `update`. -/
def update (t : LimitRuleTable) (project : Option String) (r : LimitRule) : LimitRuleTable :=
  Keyed.update t (updateRow project r) (updateRow_id project r)

/-- `delete`. -/
def delete (t : LimitRuleTable) (project : Option String) (id : String) : LimitRuleTable :=
  Keyed.delete t fun r => r.id == id && project.all fun p => r.projectId == p

/-- `list`, of the disabled rules too. -/
def list (t : LimitRuleTable) (project : String) : List LimitRule :=
  t.rows.filter fun r => r.projectId == project

end LimitRuleTable

/-- When an escalation raised at `now` lapses. -/
def Escalation.until (e : Escalation) (now : Time) : Except Overflow Time :=
  Time.addSeconds now (e.forHours * 3600 : ℕ)

/-! ## The program -/

/-- A pass in progress: the rules with an escalation that it has still to look at. -/
structure EscalationPass where
  project : String
  alerts : List ForecastAlert
  now : Time
  rules : List (Snapshot LimitRule)

/-- Whether a forecast alert names the rule within its horizon. -/
def EscalationPass.breaching (p : EscalationPass) (rule : LimitRule) (esc : Escalation) : Bool :=
  p.alerts.any fun a =>
    a.kind == "budget_breach" && a.subject == rule.id && decide (a.etaDays ≤ esc.onEtaDays)

/-- Whether the rule is escalated now. -/
def EscalationPass.live (p : EscalationPass) (rule : LimitRule) : Bool :=
  rule.escalatedUntil.any fun u => decide (p.now < u)

/-- What the pass would write into `escalated_until`, if it writes the rule. -/
def EscalationPass.next (p : EscalationPass) (rule : LimitRule) (esc : Escalation) :
    Except Overflow (Option (Option Time)) :=
  match p.breaching rule esc, p.live rule with
  -- an escalation in force that is still due is left alone, so that it stays bounded
  | true, true => .ok none
  | false, false => .ok none
  | true, false => (esc.until p.now).map fun u => some (some u)
  | false, true => .ok (some none)

structure RulesWorld where
  rules : Shared LimitRule.id
  pass : Option EscalationPass := none

/-- What operators do to rules. -/
inductive RuleEdit
  | create (r : LimitRule)
  | update (project : Option String) (r : LimitRule)
  | delete (project : Option String) (id : String)

inductive RulesOp
  | edit (e : RuleEdit)
  /-- A pass over a project lists its rules. -/
  | list (project : String) (alerts : List ForecastAlert)
  /-- The pass looks at its next rule, and writes it if there is something to change. -/
  | rule

def RuleEdit.id : RuleEdit → String
  | .create r => r.id
  | .update _ r => r.id
  | .delete _ id => id

def RuleEdit.apply (t : LimitRuleTable) : RuleEdit → LimitRuleTable
  | .create r => t.create r
  | .update project r => t.update project r
  | .delete project id => t.delete project id

namespace RulesWorld

/-- `list_limit_rules`, and the rules among them that escalate. -/
def begin (w : RulesWorld) (now : Time) (project : String) (alerts : List ForecastAlert) :
    EscalationPass where
  project := project
  alerts := alerts
  now := now
  rules := w.rules.snapshots
    ((LimitRuleTable.list w.rules.table project).filter fun r => r.escalation.isSome)

/-- One rule of the pass; an addition out of range ends the pass. -/
def escalate (w : RulesWorld) (p : EscalationPass) (x : Snapshot LimitRule)
    (rest : List (Snapshot LimitRule)) : RulesWorld :=
  match x.row.escalation.map (p.next x.row) with
  | none => { w with pass := some { p with rules := rest } }
  | some (.error _) => { w with pass := none }
  | some (.ok none) => { w with pass := some { p with rules := rest } }
  | some (.ok (some next)) =>
    let updated := { x.row with escalatedUntil := next }
    { rules := w.rules.write (LimitRuleTable.updateRow (some p.project) updated)
        (LimitRuleTable.updateRow_id (some p.project) updated)
      pass := some { p with rules := rest } }

/-- One step at an instant. -/
def exec (w : RulesWorld) (l : Time × RulesOp) : RulesWorld :=
  match l.2, w.pass with
  | .edit e, _ => { w with rules := w.rules.edit e.id (e.apply w.rules.table) }
  | .list project alerts, none => { w with pass := some (w.begin l.1 project alerts) }
  | .list _ _, some _ => w
  | .rule, none => w
  | .rule, some p =>
    match p.rules with
    | [] => { w with pass := none }
    | x :: rest => w.escalate p x rest

def init : RulesWorld := ⟨Shared.empty, none⟩

def Step (w : RulesWorld) (l : Time × RulesOp) (w' : RulesWorld) : Prop := w' = w.exec l

/-- Any labels are a run. -/
theorem run_foldl (w : RulesWorld) (ls : List (Time × RulesOp)) :
    Sys.Run Step w ls (ls.foldl exec w) := by
  induction ls generalizing w with
  | nil => exact .nil
  | cons l ls ih => exact (Sys.Run.single (l := l) rfl).append (ih _)

end RulesWorld

/-! ## What the pass keeps of an operator's edits -/

/-- An edit writes the rule under its own id only. -/
theorem RuleEdit.apply_others (t : LimitRuleTable) (e : RuleEdit) (k : String) (hk : k ≠ e.id) :
    (e.apply t).find k = t.find k := by
  cases e with
  | create r =>
    simp only [apply, LimitRuleTable.create]
    split
    · rfl
    · exact Keyed.find_append (Ne.symm hk)
  | update project s =>
    simp only [apply, LimitRuleTable.update]
    refine Keyed.find_update_of_ne fun r hr => ?_
    exact if_neg fun h => hk (hr ▸ h.1)
  | delete project id =>
    refine Keyed.find_delete fun r hr => ?_
    rw [Bool.and_eq_true, beq_iff_eq] at hr
    exact fun he => hk (he ▸ hr.1)

namespace RulesWorld

variable {w w' : RulesWorld} {l : Time × RulesOp}

/-- The rows show the operators' last edits, and the pass holds rows as they were shown. -/
structure Kept (w : RulesWorld) : Prop where
  agrees : w.rules.Agrees LimitRule.operatorPart
  pass : ∀ p ∈ w.pass, ∀ x ∈ p.rules, w.rules.Valid LimitRule.operatorPart x

/-- A rule that the pass escalates or de-escalates has not been written by an operator since the pass
listed it; other steps are free. -/
def WritesCurrent (w : RulesWorld) (l : Time × RulesOp) : Prop :=
  match l.2 with
  | .rule => ∀ p ∈ w.pass, ∀ x ∈ p.rules.head?, ∀ esc ∈ x.row.escalation,
      p.breaching x.row esc ≠ p.live x.row → w.rules.Current x
  | _ => True

instance (w : RulesWorld) (l : Time × RulesOp) : Decidable (WritesCurrent w l) := by
  unfold WritesCurrent
  split <;> infer_instance

theorem init_kept : Kept init :=
  ⟨Shared.empty_agrees, fun _ hp => absurd hp (Option.not_mem_none _)⟩

/-- Writing back a rule with only its stamp changed keeps the operator's part of every row. -/
theorem write_view {x : Snapshot LimitRule} (project : Option String) (next : Option Time)
    (hx : w.rules.Valid LimitRule.operatorPart x) (hcur : w.rules.Current x) :
    ∀ r ∈ w.rules.table.rows,
      (LimitRuleTable.updateRow project { x.row with escalatedUntil := next } r).operatorPart =
        r.operatorPart := by
  intro r hr
  unfold LimitRuleTable.updateRow
  split_ifs with hid
  · have hview := hx.view_eq hcur hr hid.1
    simp only [LimitRule.operatorPart, LimitRule.mk.injEq] at hview ⊢
    simp only [hview, and_self]
  · rfl

theorem next_ne_none {p : EscalationPass} {rule : LimitRule} {esc : Escalation}
    {next : Option Time} (h : p.next rule esc = .ok (some next)) :
    p.breaching rule esc ≠ p.live rule := by
  intro he
  unfold EscalationPass.next at h
  rw [he] at h
  cases hlive : p.live rule <;> simp [hlive] at h

theorem escalate_kept {p : EscalationPass} {x : Snapshot LimitRule}
    {rest : List (Snapshot LimitRule)} (hp : w.pass = some p) (hx : p.rules = x :: rest)
    (hcur : ∀ esc ∈ x.row.escalation, p.breaching x.row esc ≠ p.live x.row → w.rules.Current x)
    (h : Kept w) : Kept (w.escalate p x rest) := by
  have hvalid : ∀ y ∈ x :: rest, w.rules.Valid LimitRule.operatorPart y := by
    rw [← hx]
    exact h.pass p hp
  have hrest : ∀ q ∈ some { p with rules := rest }, ∀ y ∈ q.rules,
      w.rules.Valid LimitRule.operatorPart y := by
    intro q hq y hy
    rw [← Option.some.inj hq] at hy
    exact hvalid y (List.mem_cons_of_mem x hy)
  unfold escalate
  split
  · exact ⟨h.agrees, hrest⟩
  · exact ⟨h.agrees, fun _ hq => absurd hq (Option.not_mem_none _)⟩
  · exact ⟨h.agrees, hrest⟩
  · -- the only write: the table still shows what the pass listed
    rename_i next hnext
    rcases Option.map_eq_some_iff.1 hnext with ⟨esc, hesc, hnext⟩
    have hnow := hcur esc hesc (next_ne_none hnext)
    have hview := write_view (some p.project) next (hvalid x List.mem_cons_self) hnow
    exact ⟨h.agrees.write hview, fun q hq y hy => (hrest q hq y hy).write hview⟩

theorem step_kept (hstep : Step w l w') (hcond : WritesCurrent w l) (h : Kept w) : Kept w' := by
  rcases l with ⟨now, op⟩
  rw [show w' = w.exec (now, op) from hstep]
  unfold exec
  split
  · rename_i e _
    have hothers := RuleEdit.apply_others w.rules.table e
    exact ⟨h.agrees.edit hothers, fun p hp x hx => (h.pass p hp x hx).edit hothers⟩
  · refine ⟨h.agrees, fun p hp x hx => ?_⟩
    rw [← Option.some.inj hp] at hx
    refine Shared.valid_snapshots (fun r hr => ?_) x hx
    exact (List.mem_filter.1 (List.mem_filter.1 hr).1).1
  · exact h
  · exact h
  · rename_i p hop hpass
    subst hop
    split
    · exact ⟨h.agrees, fun _ hq => absurd hq (Option.not_mem_none _)⟩
    · rename_i x rest hx
      refine escalate_kept hpass hx (hcond p hpass x ?_) h
      rw [hx]
      exact rfl

end RulesWorld

/-- In a run whose pass writes only rules no operator has written since it listed them, every rule
shows the operators' last edit of it, in every field but the one the pass owns. -/
theorem rules_agree {ls : List (Time × RulesOp)} {w : RulesWorld}
    (hrun : Sys.Run (Sys.Restrict RulesWorld.Step RulesWorld.WritesCurrent) RulesWorld.init ls w) :
    w.rules.Agrees LimitRule.operatorPart :=
  (hrun.invariant RulesWorld.init_kept fun _ _ _ hs hi =>
    RulesWorld.step_kept hs.1 hs.2 hi).agrees

/-! ## Both sweeps -/

/-- **Operators' edits are kept** by both sweeps, in runs in which neither writes back a row that an
operator has written since the sweep read it. -/
theorem sweeps_keep_edits {validatePayload : JobKind → Json → Except String Unit}
    {ls : List (Time × SweepOp)} {w : SweepWorld} {ls' : List (Time × RulesOp)} {w' : RulesWorld}
    (hschedules : Sys.Run (Sys.Restrict (SweepWorld.Step validatePayload) SweepWorld.SavesCurrent)
      SweepWorld.init ls w)
    (hrules : Sys.Run (Sys.Restrict RulesWorld.Step RulesWorld.WritesCurrent)
      RulesWorld.init ls' w') :
    (∀ id, (w.schedules.table.find id).map Schedule.operatorPart =
      (w.schedules.theirs id).map Schedule.operatorPart) ∧
    ∀ id, (w'.rules.table.find id).map LimitRule.operatorPart =
      (w'.rules.theirs id).map LimitRule.operatorPart :=
  ⟨schedules_agree hschedules, rules_agree hrules⟩

/-- A daily cap that is to throttle when its breach is two days away. -/
def LimitRule.sample : LimitRule where
  id := "rule-1"
  projectId := "p1"
  metric := .costUsd
  window := .day
  threshold := .fixed 10
  action := .alert
  escalation := some ⟨2, .throttle, 24⟩

/-- A schedule fired once, and a rule escalated once, with no edit in between. -/
theorem sweeps_keep_edits_sample :
    ∃ (w : SweepWorld) (w' : RulesWorld), ((w.schedules.table.find "sch-1").map Schedule.lastJobId = some (some "j1") ∧
        (w.schedules.table.find "sch-1").map Schedule.operatorPart =
          (w.schedules.theirs "sch-1").map Schedule.operatorPart) ∧
      ((w'.rules.table.find "rule-1").map (fun r => r.escalatedUntil.isSome) = some true ∧
        (w'.rules.table.find "rule-1").map LimitRule.operatorPart =
          (w'.rules.theirs "rule-1").map LimitRule.operatorPart) := by
  have hschedules := Sys.Run.of_enabled
    (Sys.Restrict (SweepWorld.Step fun _ _ => .ok ()) SweepWorld.SavesCurrent)
    (SweepWorld.exec fun _ _ => .ok ()) SweepWorld.SavesCurrent (fun _ _ h => ⟨rfl, h⟩)
    SweepWorld.init
    [(0, .edit (.create .sample)), (1, .sweep "j1"), (1, .sweep "j1"), (3, .sweep "j1"),
      (3, .sweep "j1"), (3, .sweep "j1"), (3, .sweep "j1")] (by decide +kernel)
  have hrules := Sys.Run.of_enabled (Sys.Restrict RulesWorld.Step RulesWorld.WritesCurrent)
    RulesWorld.exec RulesWorld.WritesCurrent (fun _ _ h => ⟨rfl, h⟩) RulesWorld.init
    [(0, .edit (.create .sample)), (1, .list "p1" [⟨"budget_breach", "rule-1", 1⟩]), (3, .rule)]
    (by decide +kernel)
  have hkept := sweeps_keep_edits hschedules hrules
  exact ⟨_, _, ⟨by decide +kernel, hkept.1 "sch-1"⟩, ⟨by decide +kernel, hkept.2 "rule-1"⟩⟩

/-- The sweep reads a schedule, an operator pauses it, and the sweep saves it enabled; the pass lists
a rule, an operator turns its cap into a block, and the pass writes the alert back. -/
theorem stale_writes_revert_edits :
    (∃ ls w, Sys.Run (SweepWorld.Step fun _ _ => .ok ()) SweepWorld.init ls w ∧
      (w.schedules.theirs "sch-1").map Schedule.enabled = some false ∧
      (w.schedules.table.find "sch-1").map Schedule.enabled = some true) ∧
    ∃ ls w, Sys.Run RulesWorld.Step RulesWorld.init ls w ∧
      (w.rules.theirs "rule-1").map LimitRule.action = some .block ∧
      (w.rules.table.find "rule-1").map LimitRule.action = some .alert := by
  constructor
  · have hrun := SweepWorld.run_foldl (fun _ _ => .ok ()) SweepWorld.init
      [(0, .edit (.create .sample)), (1, .sweep "j1"), (1, .sweep "j1"),
        (2, .edit (.update { Schedule.sample with enabled := false })),
        (3, .sweep "j1"), (3, .sweep "j1"), (3, .sweep "j1"), (3, .sweep "j1")]
    exact ⟨_, _, hrun, by decide +kernel, by decide +kernel⟩
  · have hrun := RulesWorld.run_foldl RulesWorld.init
      [(0, .edit (.create .sample)), (1, .list "p1" [⟨"budget_breach", "rule-1", 1⟩]),
        (2, .edit (.update none { LimitRule.sample with action := .block })), (3, .rule)]
    exact ⟨_, _, hrun, by decide +kernel, by decide +kernel⟩

end LightTrack
