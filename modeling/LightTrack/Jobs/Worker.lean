import LightTrack.Jobs.Queue
import LightTrack.Lib.Run

/-! # Workers

`run_claimed_job` executes one claimed job: a heartbeat renews the lease and a watcher polls for a
cancel while the work runs, and then one finish is sent.  The messages between a worker and the
store may be late, repeated or lost:

* a renewal may arrive again or late, and its answer may be lost,
* a finish, once sent, may be delivered any number of times.

`stamps` and `effects` are history: the instants that were stamped on a row for a claim, and the
finishes that took effect.  No operation reads them, but for the renewals a claim can have sent.
-/

namespace LightTrack

/-- One claimed job in the hands of a worker. -/
structure WorkerRun where
  /-- The row as the claim returned it. -/
  job : Job
  /-- The lease the worker holds, as far as it knows. -/
  lease : Option Time
  /-- `RunControl::cancelled`. -/
  cancelled : Bool := false
  /-- Whether the run has sent its finish. -/
  finished : Bool := false
  stamps : List Time

/-- One finish request, and the claim it is for. -/
structure FinishReq where
  claim : ℕ
  id : String
  status : JobStatus
  result : Json
  error : Option String
  claimedAt : Option Time

/-- One finish that took effect. -/
structure Effect where
  claim : ℕ
  jobId : String
  failed : Bool

/-- `retry_decision`: whether a reported failure retries, given the failures before it. -/
def retryDecision (failures maxAttempts : ℕ) : JobStatus :=
  if failures + 1 < maxAttempts then .queued else .failed

/-- The finish a run sends when its work is over. -/
def WorkerRun.finishReq (claim : ℕ) (run : WorkerRun) (outcome : Except String Json) : FinishReq :=
  match outcome with
  | .ok result =>
    { claim, id := run.job.id, status := if run.cancelled then .cancelled else .done
      result, error := none, claimedAt := run.lease }
  | .error e =>
    { claim, id := run.job.id, status := retryDecision run.job.failures run.job.maxAttempts
      result := .null, error := some (JOB_ERROR_PREFIX_FAILURE ++ e), claimedAt := run.lease }

/-- The store, the workers and the finishes in flight. -/
structure JobSystem where
  table : JobTable
  runs : List WorkerRun
  sent : List FinishReq
  effects : List Effect

/-- One thing that happens. Claims are numbered in the order they were granted. -/
inductive JobOp where
  | enqueue (id jobType : String) (project : Option String) (payload : Json)
  | cancel (project : Option String) (id : String)
  | claim (staleBefore : Time) (kinds : List String)
  | progress (id progress : String)
  /-- A renewal of claim `i` arrives that carries `fence`; `answered` says whether the worker
  hears of it. -/
  | renew (i : ℕ) (fence : Time) (answered : Bool)
  /-- The watcher of claim `i` asks whether its job was cancelled. -/
  | poll (i : ℕ)
  /-- The work of claim `i` is over, and its finish is sent. -/
  | work (i : ℕ) (outcome : Except String Json)
  /-- The `k`-th finish sent is delivered, for the first time or again. -/
  | deliver (k : ℕ)

namespace JobSystem

/-- What a claim adds to the runs. -/
def claimedRun (now : Time) (j : Job) : WorkerRun :=
  { job := j, lease := j.claimedAt, stamps := [now] }

/-- What the answer to a renewal does to a run: a new lease, or the stop of a run that lost it. -/
def heard (answer : Option Time) (run : WorkerRun) : WorkerRun :=
  match answer with
  | some next => { run with lease := some next }
  | none => { run with cancelled := true }

/-- `poll_cancelled`. -/
def pollCancelled (t : JobTable) (id : String) : Bool :=
  (t.get none id).any fun j => j.status == .cancelling || j.status == .cancelled

/-- Let one thing happen at `now`. -/
def exec (now : Time) (op : JobOp) (s : JobSystem) : Sys.Timed Time JobSystem :=
  match op with
  | .enqueue id jobType project payload =>
    ⟨now, { s with table := s.table.create (.enqueued id jobType project payload now) }⟩
  | .cancel project id => ⟨now, { s with table := (s.table.cancel now project id).2 }⟩
  | .claim staleBefore kinds =>
    let (job, table) := s.table.claim now staleBefore kinds
    ⟨now, { s with table, runs := s.runs ++ job.toList.map (claimedRun now) }⟩
  | .progress id progress => ⟨now, { s with table := s.table.updateProgress now id progress }⟩
  | .renew i fence answered =>
    match s.runs[i]? with
    | none => ⟨now, s⟩
    | some run =>
      if fence ∈ run.stamps then
        let (answer, table) := s.table.renewLease now run.job.id fence
        let run := { run with stamps := run.stamps ++ answer.toList }
        ⟨now, { s with table, runs := s.runs.set i (if answered then heard answer run else run) }⟩
      else ⟨now, s⟩
  | .poll i =>
    match s.runs[i]? with
    | none => ⟨now, s⟩
    | some run =>
      ⟨now, { s with
        runs := s.runs.set i
          { run with cancelled := run.cancelled || pollCancelled s.table run.job.id } }⟩
  | .work i outcome =>
    match s.runs[i]? with
    | none => ⟨now, s⟩
    | some run =>
      if run.finished then ⟨now, s⟩
      else
        ⟨now, { s with
          runs := s.runs.set i { run with finished := true }
          sent := s.sent ++ [run.finishReq i outcome] }⟩
  | .deliver k =>
    match s.sent[k]? with
    | none => ⟨now, s⟩
    | some req =>
      let (answer, table) := s.table.finish now req.id req.status req.result req.error req.claimedAt
      ⟨now, { s with
        table
        effects := if answer = .finished then
            s.effects ++ [{ claim := req.claim, jobId := req.id, failed := req.error.isSome }]
          else s.effects }⟩

/-! ## What the steps do -/

theorem exec_renew (now : Time) (i : ℕ) (fence : Time) (answered : Bool) (s : JobSystem) :
    (exec now (.renew i fence answered) s).state = s ∨
      ∃ run, s.runs[i]? = some run ∧ fence ∈ run.stamps ∧
        (exec now (.renew i fence answered) s).state =
          let answer := s.table.renewLease now run.job.id fence
          let run' := { run with stamps := run.stamps ++ answer.1.toList }
          { s with
            table := answer.2
            runs := s.runs.set i (if answered then heard answer.1 run' else run') } := by
  cases hrun : s.runs[i]? with
  | none =>
    left
    simp only [exec, hrun]
  | some run =>
    by_cases hfence : fence ∈ run.stamps
    · right
      refine ⟨run, rfl, hfence, ?_⟩
      simp only [exec, hrun, if_pos hfence]
    · left
      simp only [exec, hrun, if_neg hfence]

theorem exec_poll (now : Time) (i : ℕ) (s : JobSystem) :
    (exec now (.poll i) s).state = s ∨
      ∃ run, s.runs[i]? = some run ∧ (exec now (.poll i) s).state =
        { s with
          runs := s.runs.set i
            { run with cancelled := run.cancelled || pollCancelled s.table run.job.id } } := by
  cases hrun : s.runs[i]? with
  | none =>
    left
    simp only [exec, hrun]
  | some run =>
    right
    refine ⟨run, rfl, ?_⟩
    simp only [exec, hrun]

theorem exec_work (now : Time) (i : ℕ) (outcome : Except String Json) (s : JobSystem) :
    (exec now (.work i outcome) s).state = s ∨
      ∃ run, s.runs[i]? = some run ∧ run.finished = false ∧
        (exec now (.work i outcome) s).state =
          { s with
            runs := s.runs.set i { run with finished := true }
            sent := s.sent ++ [run.finishReq i outcome] } := by
  cases hrun : s.runs[i]? with
  | none =>
    left
    simp only [exec, hrun]
  | some run =>
    cases hfinished : run.finished with
    | true =>
      left
      simp only [exec, hrun, hfinished, if_true]
    | false =>
      right
      refine ⟨run, rfl, hfinished, ?_⟩
      simp only [exec, hrun, hfinished, Bool.false_eq_true, if_false]

theorem exec_deliver (now : Time) (k : ℕ) (s : JobSystem) :
    (exec now (.deliver k) s).state = s ∧ s.sent[k]? = none ∨
      ∃ req, s.sent[k]? = some req ∧ (exec now (.deliver k) s).state =
        let answer :=
          s.table.finish now req.id req.status req.result req.error req.claimedAt
        { s with
          table := answer.2
          effects := if answer.1 = .finished then
              s.effects ++ [{ claim := req.claim, jobId := req.id, failed := req.error.isSome }]
            else s.effects } := by
  cases hreq : s.sent[k]? with
  | none =>
    left
    simp only [exec, hreq, and_self]
  | some req =>
    right
    refine ⟨req, rfl, ?_⟩
    simp only [exec, hreq]

theorem exec_clock (now : Time) (op : JobOp) (s : JobSystem) : (exec now op s).clock = now := by
  unfold exec
  split
  all_goals try split
  all_goals try split
  all_goals rfl

/-- One step under a clock that does not go backwards. -/
abbrev Step := Sys.Ticks exec

/-- The clock advances. -/
def Advances (s : Sys.Timed Time JobSystem) (l : Time × JobOp) : Prop := s.clock < l.1

instance (s : Sys.Timed Time JobSystem) (l : Time × JobOp) : Decidable (Advances s l) :=
  inferInstanceAs (Decidable (s.clock < l.1))

/-- Nothing has been enqueued or claimed yet. -/
def Init (s : Sys.Timed Time JobSystem) : Prop :=
  s.state.table.rows = [] ∧ s.state.runs = [] ∧ s.state.sent = [] ∧ s.state.effects = []

end JobSystem

end LightTrack
