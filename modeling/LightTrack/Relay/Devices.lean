import LightTrack.Relay.Agent
import LightTrack.Relay.Cadence

/-! # Devices and the queue

Any number of runs, on any number of devices, beside the queue that leased their tasks.  A run is
held up at any point and for any time; an answer to a renewal may come late, be lost, or be
replaced on its way by one that decides nothing or that refuses.

`AgentRun.Acts` says once what an action can do to a run.
-/

namespace LightTrack.Agent

/-! ## One run -/

/-- How far a run has come. -/
inductive Stage where
  | leased
  | executing
  /-- There is a result, and nothing irreversible has happened. -/
  | seam
  | delivering
  | settling
  | done
  deriving DecidableEq

/-- Where the heartbeat of a run is. -/
inductive Beat where
  | waiting
  | asking
  | answered (held : LeaseHeld)
  | ended
  deriving DecidableEq

/-- A lease that a device works on. -/
structure AgentRun where
  task : RelayTask
  stage : Stage := .leased
  beat : Beat := .waiting
  interrupt : Option Interrupt := none
  produced : Option Produced := none
  report : Option RunReport := none

/-- What a run does, or what happens to it. -/
inductive RunAction where
  | begin
  | ask
  /-- The queue takes the renewal. -/
  | serve
  /-- The queue's answer comes back. -/
  | hear (body : String)
  /-- Something else comes back. -/
  | fail (answer : Except String Answer)
  /-- A renewal that nobody waits for any more reaches the queue. -/
  | late
  | progress (text : String)
  | produce (host : Host)
  /-- The one decision between producing a result and delivering it. -/
  | seam
  | deliver (answer : Except String Unit)
  /-- The report reaches the queue. -/
  | land

/-- A run behind an action, the call the action made on the queue, and whether its connector was
called, and with what success. -/
structure Effect where
  run : AgentRun
  call : Option RelayOp := none
  connected : Option Bool := none

namespace AgentRun

/-- The heartbeat goes on, or ends with what it learnt. -/
def heed (run : AgentRun) (v : Verdict) : AgentRun :=
  match v.interrupt with
  | some stop => { run with interrupt := some stop, beat := .ended }
  | none => { run with beat := .waiting }

/-- A renewal is under way. -/
def Awaits (run : AgentRun) : Prop := run.beat = .asking ∨ ∃ held, run.beat = .answered held

instance (run : AgentRun) : Decidable run.Awaits :=
  match h : run.beat with
  | .asking => isTrue (.inl h)
  | .answered held => isTrue (.inr ⟨held, h⟩)
  | .waiting => isFalse fun hw => by
      rcases hw with hw | ⟨held, hw⟩ <;> rw [h] at hw <;> cases hw
  | .ended => isFalse fun hw => by
      rcases hw with hw | ⟨held, hw⟩ <;> rw [h] at hw <;> cases hw

/-- What comes of a result at the seam. -/
def settle (run : AgentRun) (p : Produced) : AgentRun :=
  match settlement run.interrupt with
  | .abandon => { run with stage := .done }
  | .settleOnly => { run with stage := .settling, report := some p.report }
  | .deliverAndSettle =>
    if p.delivery.isSome then { run with stage := .delivering }
    else { run with stage := .settling, report := some p.report }

/-- What the queue answers to a renewal of the run. -/
def renewal (table : RelayTable) (now : Time) (run : AgentRun) (fence : Time) : LeaseHeld :=
  (table.renew now run.task.id fence (min MAX_LEASE_SECS defaultLeaseSecs)).1

/-- `run_one`, action by action, of a lease with a fence. -/
def act (table : RelayTable) (now : Time) : RunAction → AgentRun → Option Effect
  | .begin, run =>
    if run.stage = .leased then some { run := { run with stage := .executing } } else none
  | .ask, run =>
    if run.stage = .executing ∧ run.beat = .waiting then
      some { run := { run with beat := .asking } }
    else none
  | .serve, run => do
    let fence ← run.task.leaseFence
    if run.beat = .asking then
      some {
        run := { run with beat := .answered (renewal table now run fence) }
        call := some (renewLease run.task.id fence) }
    else none
  | .hear body, run =>
    match run.beat with
    | .answered held => some { run := run.heed (classify (.ok (leaseAnswer body held))) }
    | _ => none
  | .fail answer, run =>
    if run.Awaits ∧ (classify answer).interrupt ≠ some .cancelled then
      some { run := run.heed (classify answer) }
    else none
  | .late, run => do
    let fence ← run.task.leaseFence
    if run.stage ≠ .leased then some { run, call := some (renewLease run.task.id fence) } else none
  | .progress text, run => do
    let fence ← run.task.leaseFence
    if run.stage ≠ .leased then some { run, call := some (.updateProgress run.task.id fence text) }
    else none
  | .produce host, run =>
    if run.stage = .executing then
      some { run := { run with stage := .seam, produced := some (execute host run.task) } }
    else none
  | .seam, run => do
    let p ← run.produced
    if run.stage = .seam then some { run := run.settle p } else none
  | .deliver answer, run => do
    let p ← run.produced
    if run.stage = .delivering then
      some {
        run := { run with stage := .settling, report := some (propagate p answer) }
        connected := some answer.isOk }
    else none
  | .land, run => do
    let fence ← run.task.leaseFence
    let report ← run.report
    if run.stage = .settling then
      some {
        run := { run with stage := .done }
        call := some (.settle run.task.id (some fence) report.outcome) }
    else none

/-- Everything an action can do to a run. -/
inductive Acts (table : RelayTable) (now : Time) (run : AgentRun) : Effect → Prop
  | begun : run.stage = .leased → Acts table now run { run := { run with stage := .executing } }
  | asked : run.stage = .executing → run.beat = .waiting →
      Acts table now run { run := { run with beat := .asking } }
  | served {fence : Time} : run.task.leaseFence = some fence → run.beat = .asking →
      Acts table now run {
        run := { run with beat := .answered (renewal table now run fence) }
        call := some (renewLease run.task.id fence) }
  | heard {v : Verdict} : run.beat ≠ .ended →
      (v.interrupt = some .cancelled → ∃ d, run.beat = .answered (.held d true)) →
        Acts table now run { run := run.heed v }
  | called {op : RelayOp} : RelayOp.holder op ≠ none →
      (∀ id fence outcome, op ≠ .settle id fence outcome) →
        Acts table now run { run, call := some op }
  | produced (host : Host) : run.stage = .executing →
      Acts table now run
        { run := { run with stage := .seam, produced := some (execute host run.task) } }
  | settled {p : Produced} : run.produced = some p → run.stage = .seam →
      Acts table now run { run := run.settle p }
  | delivered {p : Produced} (answer : Except String Unit) : run.produced = some p →
      run.stage = .delivering →
        Acts table now run {
          run := { run with stage := .settling, report := some (propagate p answer) }
          connected := some answer.isOk }
  | landed {fence : Time} {report : RunReport} : run.task.leaseFence = some fence →
      run.report = some report → run.stage = .settling →
        Acts table now run {
          run := { run with stage := .done }
          call := some (.settle run.task.id (some fence) report.outcome) }

theorem acts_of_act {table : RelayTable} {now : Time} {run : AgentRun} {a : RunAction} {e : Effect}
    (he : run.act table now a = some e) : Acts table now run e := by
  cases a with
  | begin =>
    dsimp only [act] at he
    split_ifs at he with hstage
    cases he
    exact .begun hstage
  | ask =>
    dsimp only [act] at he
    split_ifs at he with hready
    cases he
    exact .asked hready.1 hready.2
  | serve =>
    obtain ⟨fence, hfence, he⟩ := Option.bind_eq_some_iff.1 he
    split_ifs at he with hasking
    cases he
    exact .served hfence hasking
  | hear body =>
    dsimp only [act] at he
    split at he
    next held hanswered =>
      cases he
      refine .heard (by rw [hanswered]; exact fun hne => by cases hne) fun hcancel => ?_
      rw [interrupt_leaseAnswer] at hcancel
      split at hcancel
      · cases hcancel
      next d => exact ⟨d, hanswered⟩
      · cases hcancel
      · cases hcancel
    · cases he
  | fail answer =>
    dsimp only [act] at he
    split_ifs at he with hready
    cases he
    refine .heard (fun hended => ?_) fun hcancel => absurd hcancel hready.2
    rcases hready.1 with hw | ⟨held, hw⟩ <;> rw [hended] at hw <;> cases hw
  | late =>
    obtain ⟨fence, -, he⟩ := Option.bind_eq_some_iff.1 he
    split_ifs at he
    cases he
    exact .called (Option.some_ne_none _) fun _ _ _ hop => by cases hop
  | progress text =>
    obtain ⟨fence, -, he⟩ := Option.bind_eq_some_iff.1 he
    split_ifs at he
    cases he
    exact .called (Option.some_ne_none _) fun _ _ _ hop => by cases hop
  | produce host =>
    dsimp only [act] at he
    split_ifs at he with hstage
    cases he
    exact .produced host hstage
  | seam =>
    obtain ⟨p, hp, he⟩ := Option.bind_eq_some_iff.1 he
    split_ifs at he with hstage
    cases he
    exact .settled hp hstage
  | deliver answer =>
    obtain ⟨p, hp, he⟩ := Option.bind_eq_some_iff.1 he
    split_ifs at he with hstage
    cases he
    exact .delivered answer hp hstage
  | land =>
    obtain ⟨fence, hfence, he⟩ := Option.bind_eq_some_iff.1 he
    obtain ⟨report, hreport, he⟩ := Option.bind_eq_some_iff.1 he
    split_ifs at he with hstage
    cases he
    exact .landed hfence hreport hstage

/-- What every action leaves of a run. -/
structure Kept (run : AgentRun) (e : Effect) : Prop where
  task : e.run.task = run.task
  done : run.stage = .done → e.run.stage = .done ∧ e.run.produced = run.produced
  connected : e.connected ≠ none → run.stage = .delivering
  unleased : ∀ op, e.call = some op → ∀ now table, RelayOp.leases op now table = []

theorem heed_task (run : AgentRun) (v : Verdict) : (run.heed v).task = run.task := by
  unfold heed
  split <;> rfl

theorem heed_stage (run : AgentRun) (v : Verdict) : (run.heed v).stage = run.stage := by
  unfold heed
  split <;> rfl

theorem heed_produced (run : AgentRun) (v : Verdict) : (run.heed v).produced = run.produced := by
  unfold heed
  split <;> rfl

theorem settle_task (run : AgentRun) (p : Produced) : (run.settle p).task = run.task := by
  unfold settle
  split
  · rfl
  · rfl
  · split_ifs <;> rfl

theorem Acts.kept {table : RelayTable} {now : Time} {run : AgentRun} {e : Effect}
    (h : Acts table now run e) : Kept run e := by
  have hnone : ∀ {op : RelayOp}, (none : Option RelayOp) = some op → False := fun h => by cases h
  cases h with
  | begun hstage =>
    exact ⟨rfl, fun hd => (by rw [hd] at hstage; cases hstage), fun hc => absurd rfl hc,
      fun _ h => (hnone h).elim⟩
  | asked hstage _ =>
    exact ⟨rfl, fun hd => ⟨hd, rfl⟩, fun hc => absurd rfl hc, fun _ h => (hnone h).elim⟩
  | served _ _ =>
    refine ⟨rfl, fun hd => ⟨hd, rfl⟩, fun hc => absurd rfl hc, ?_⟩
    rintro op ⟨⟩ now table
    rfl
  | heard _ _ =>
    refine ⟨heed_task _ _, fun hd => ⟨(heed_stage _ _).trans hd, heed_produced _ _⟩,
      fun hc => absurd rfl hc, fun _ h => (hnone h).elim⟩
  | @called op hholder _ =>
    refine ⟨rfl, fun hd => ⟨hd, rfl⟩, fun hc => absurd rfl hc, ?_⟩
    rintro op' ⟨⟩ now table
    cases op <;> first | rfl | exact absurd rfl hholder
  | produced host hstage =>
    exact ⟨rfl, fun hd => (by rw [hd] at hstage; cases hstage), fun hc => absurd rfl hc,
      fun _ h => (hnone h).elim⟩
  | settled _ hstage =>
    exact ⟨settle_task _ _, fun hd => (by rw [hd] at hstage; cases hstage),
      fun hc => absurd rfl hc, fun _ h => (hnone h).elim⟩
  | delivered answer _ hstage =>
    exact ⟨rfl, fun hd => (by rw [hd] at hstage; cases hstage), fun _ => hstage,
      fun _ h => (hnone h).elim⟩
  | landed _ _ hstage =>
    refine ⟨rfl, fun hd => (by rw [hd] at hstage; cases hstage), fun hc => absurd rfl hc, ?_⟩
    rintro op ⟨⟩ now table
    rfl

end AgentRun

/-! ## All runs -/

/-- The queue, the runs of the leases granted so far, and the connectors called so far: for which
run, and whether the call succeeded. -/
structure RelaySystem where
  queue : RelayQueue
  runs : List AgentRun
  delivered : List (ℕ × Bool)

/-- What happens next. -/
inductive SystemAction where
  /-- A call that no run makes. -/
  | call (op : RelayOp)
  | run (i : ℕ) (action : RunAction)

/-- The calls of apps, of operators, of the sweep, and of devices that look for work. -/
def RelayOp.Unheld : RelayOp → Prop
  | .enqueue _ | .lease _ _ _ _ | .sweepDead | .cancel _ _ => True
  | .renew _ _ _ | .updateProgress _ _ _ | .settle _ _ _ => False

/-- The runs that a call begins. -/
def newRuns (op : RelayOp) (now : Time) (table : RelayTable) : List AgentRun :=
  match op with
  | .lease device capabilities leaseSecs max =>
    (table.lease now device capabilities leaseSecs max).1.map fun task => { task }
  | _ => []

instance (op : RelayOp) : Decidable (RelayOp.Unheld op) :=
  match op with
  | .enqueue _ | .lease _ _ _ _ | .sweepDead | .cancel _ _ => isTrue trivial
  | .renew _ _ _ | .updateProgress _ _ _ | .settle _ _ _ => isFalse id

namespace RelaySystem

/-- What an effect of the `i`th run leaves behind. -/
def after (s : RelaySystem) (now : Time) (i : ℕ) (e : Effect) : RelaySystem where
  queue := e.call.elim s.queue fun op => (RelayQueue.exec now op s.queue).state
  runs := s.runs.set i e.run
  delivered := s.delivered ++ (e.connected.map (i, ·)).toList

/-- Take an action. -/
def exec (now : Time) (action : SystemAction) (s : RelaySystem) : Sys.Timed Time RelaySystem :=
  match action with
  | .call op => ⟨now,
    { queue := (RelayQueue.exec now op s.queue).state
      runs := s.runs ++ newRuns op now s.queue.table
      delivered := s.delivered }⟩
  | .run i action =>
    match s.runs[i]? with
    | none => ⟨now, s⟩
    | some run =>
      match run.act s.queue.table now action with
      | none => ⟨now, s⟩
      | some e => ⟨now, s.after now i e⟩

/-- The action can be taken. -/
def Ready (s : Sys.Timed Time RelaySystem) (l : Time × SystemAction) : Prop :=
  match l.2 with
  | .call op => RelayOp.Unheld op
  | .run i action => ∃ run e, s.state.runs[i]? = some run ∧
      run.act s.state.queue.table l.1 action = some e

theorem ready_run_iff {s : Sys.Timed Time RelaySystem} {now : Time} {i : ℕ} {action : RunAction} :
    (s.state.runs[i]?.bind (AgentRun.act s.state.queue.table now action)).isSome ↔
      Ready s (now, .run i action) := by
  rw [Option.isSome_iff_exists]
  constructor
  · rintro ⟨e, he⟩
    obtain ⟨run, hrun, he⟩ := Option.bind_eq_some_iff.1 he
    exact ⟨run, e, hrun, he⟩
  · rintro ⟨run, e, hrun, he⟩
    exact ⟨e, Option.bind_eq_some_iff.2 ⟨run, hrun, he⟩⟩

instance (s : Sys.Timed Time RelaySystem) (l : Time × SystemAction) : Decidable (Ready s l) :=
  match l with
  | (_, .call op) => inferInstanceAs (Decidable (RelayOp.Unheld op))
  | (_, .run _ _) => decidable_of_iff _ ready_run_iff

/-- One action, under a clock that does not go backwards. -/
abbrev Step := Sys.Restrict (Sys.Ticks exec) Ready

/-- Nothing has been enqueued yet. -/
structure Init (s : Sys.Timed Time RelaySystem) : Prop where
  tasks : s.state.queue.table.tasks = []
  grants : s.state.queue.grants = []
  runs : s.state.runs = []
  delivered : s.state.delivered = []

end RelaySystem

end LightTrack.Agent
