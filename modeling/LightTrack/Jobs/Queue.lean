import LightTrack.Core.Event
import LightTrack.Lib.Keyed

/-! # The job queue

Background jobs are enqueued by the API and executed by workers.  A claim hands the oldest claimable
job to a worker and stamps `claimedAt`, which is both heartbeat and fencing token: a renewal moves it,
and a finish that names another stamp is refused.

A stamp older than the caller's stale bound means the worker died.  A `running` job is then handed
to the next worker; a `cancelling` one is settled as `cancelled`.
-/

namespace LightTrack

/-- `JOB_ERROR_WORKER_LOST`. -/
def JOB_ERROR_WORKER_LOST : String :=
  "worker lost: the worker holding this job did not finish before the stale-claim timeout " ++
    "(crashed, killed, or partitioned) — this is not a benchmark failure"

/-- `JOB_ERROR_CANCEL_ORPHANED`. -/
def JOB_ERROR_CANCEL_ORPHANED : String :=
  "cancelled: the worker holding this job died after the cancel was requested, before it" ++
    "      reached a case boundary — any partial results it had not yet written are lost"

/-- `JOB_ERROR_PREFIX_FAILURE`. -/
def JOB_ERROR_PREFIX_FAILURE : String := "benchmark failure: "

/-- Where a job stands. -/
inductive JobStatus where
  | queued
  | running
  | cancelling
  | cancelled
  | done
  | failed
  deriving DecidableEq

namespace JobStatus

/-- `job_is_terminal`. -/
def isTerminal : JobStatus → Bool
  | done | failed | cancelled => true
  | _ => false

/-- A worker holds the job: `status IN ('running','cancelling')`. -/
def isHeld : JobStatus → Bool
  | running | cancelling => true
  | _ => false

end JobStatus

/-- One row of `jobs`. -/
structure Job where
  id : String
  jobType : String
  payload : Json
  status : JobStatus
  projectId : Option String
  attempts : ℕ
  failures : ℕ
  staleReclaims : ℕ
  maxAttempts : ℕ
  progress : Option String
  error : Option String
  result : Json
  claimedAt : Option Time
  createdAt : Time
  updatedAt : Time

/-- What a cancel request did. -/
inductive JobCancel where
  | cancelled
  | cancelling
  | alreadyFinished (status : JobStatus)
  deriving DecidableEq

/-- What a finish did. -/
inductive JobFinish where
  | finished
  | notHeld (status : JobStatus) (claimedAt : Option Time)
  | noSuchJob
  deriving DecidableEq

/-- `enqueue`: the row a new job gets. -/
def Job.enqueued (id jobType : String) (project : Option String) (payload : Json) (now : Time) :
    Job where
  id := id
  jobType := jobType
  payload := payload
  status := .queued
  projectId := project
  attempts := 0
  failures := 0
  staleReclaims := 0
  maxAttempts := 3
  progress := none
  error := none
  result := .null
  claimedAt := none
  createdAt := now
  updatedAt := now

/-- The jobs, by id. -/
abbrev JobTable := Keyed Job.id

namespace JobTable

/-- `create`: a taken id is refused. -/
def create (t : JobTable) (j : Job) : JobTable :=
  if hid : j.id ∈ t.rows.map Job.id then t else t.append j hid

/-- `get`: one job, optionally of one project. -/
def get (t : JobTable) (project : Option String) (id : String) : Option Job :=
  (t.find id).filter fun j => project.all fun p => j.projectId == some p

/-- `list`: the newest jobs first, optionally of one project and of one status. -/
def list (t : JobTable) (project : Option String) (status : Option JobStatus) (limit : ℕ) :
    List Job :=
  ((t.rows.filter fun j => status.all (fun s => j.status == s) &&
      project.all fun p => j.projectId == some p).mergeSort fun a b =>
    decide (b.createdAt ≤ a.createdAt)).take limit

theorem mem_of_mem_list {t : JobTable} {project : Option String} {status : Option JobStatus}
    {limit : ℕ} {j : Job} (h : j ∈ t.list project status limit) : j ∈ t.rows :=
  (List.mem_filter.1 (List.mem_mergeSort.1 (List.mem_of_mem_take h))).1

/-! ## Cancel -/

/-- The row a cancel writes. -/
def cancelRow (now : Time) (project : Option String) (id : String) (j : Job) : Job :=
  if j.id == id && (j.status == .queued || j.status == .running) &&
      project.all fun p => j.projectId == some p then
    { j with
      status := if j.status = .queued then .cancelled else .cancelling
      updatedAt := now }
  else j

/-- `cancel`. -/
def cancel (t : JobTable) (now : Time) (project : Option String) (id : String) :
    Option JobCancel × JobTable :=
  let answer := (t.get project id).map fun j =>
    match j.status with
    | .queued => .cancelled
    | .running => .cancelling
    | status => .alreadyFinished status
  (answer, t.update (cancelRow now project id) fun j => by
    unfold cancelRow
    split_ifs <;> rfl)

/-! ## Claim -/

/-- The row the sweep of orphaned cancels writes. -/
def orphanRow (now staleBefore : Time) (j : Job) : Job :=
  if j.status == .cancelling && j.claimedAt.any fun c => decide (c < staleBefore) then
    { j with status := .cancelled, updatedAt := now, error := some JOB_ERROR_CANCEL_ORPHANED }
  else j

/-- The jobs a worker of these kinds may claim: queued, or held under a stale stamp. -/
def claimable (staleBefore : Time) (kinds : List String) (j : Job) : Bool :=
  (j.status == .queued ||
      (j.status == .running && j.claimedAt.any fun c => decide (c < staleBefore))) &&
    (kinds.isEmpty || decide (j.jobType ∈ kinds))

/-- The row a claim writes. Taking a stale claim over counts a lost worker. -/
def claimRow (now : Time) (j : Job) : Job :=
  { j with
    status := .running
    claimedAt := some now
    updatedAt := now
    attempts := j.attempts + 1
    staleReclaims := j.staleReclaims + if j.status = .running then 1 else 0
    error := if j.status = .running then some JOB_ERROR_WORKER_LOST else j.error }

/-- The id a claim picks: the oldest claimable job. -/
def claimId (t : JobTable) (staleBefore : Time) (kinds : List String) : Option String :=
  ((t.rows.filter (claimable staleBefore kinds)).mergeSort fun a b =>
    decide (a.createdAt ≤ b.createdAt)).head?.map Job.id

/-- The sweep a claim starts with. -/
def sweepOrphans (t : JobTable) (now staleBefore : Time) : JobTable :=
  t.update (orphanRow now staleBefore) fun j => by
    unfold orphanRow
    split_ifs <;> rfl

/-- `claim`: the claimed row, if there is one, and the table. -/
def claim (t : JobTable) (now staleBefore : Time) (kinds : List String) : Option Job × JobTable :=
  let t := t.sweepOrphans now staleBefore
  match t.claimId staleBefore kinds with
  | none => (none, t)
  | some id =>
    let t := t.update (fun j => if j.id = id then claimRow now j else j) fun j => by
      split_ifs <;> rfl
    (t.find id, t)

/-! ## A holder's writes -/

/-- `update_progress`: no condition but the id. -/
def updateProgress (t : JobTable) (now : Time) (id progress : String) : JobTable :=
  t.update (fun j =>
    if j.id = id then { j with progress := some progress, updatedAt := now } else j) fun j => by
      split_ifs <;> rfl

/-- `id = ?1 AND claimed_at = ?2 AND status IN ('running','cancelling')`. -/
def renewable (id : String) (fence : Time) (j : Job) : Bool :=
  j.id == id && j.claimedAt == some fence && j.status.isHeld

/-- `renew_lease`: the new stamp, if the lease was still held. -/
def renewLease (t : JobTable) (now : Time) (id : String) (fence : Time) :
    Option Time × JobTable :=
  (if t.rows.any (renewable id fence) then some now else none,
    t.update (fun j =>
      if renewable id fence j then { j with claimedAt := some now, updatedAt := now } else j)
      fun j => by split_ifs <;> rfl)

/-- `id = ?1 AND status NOT IN ('done','failed','cancelled') AND (?6 IS NULL OR claimed_at = ?6)`. -/
def finishable (id : String) (fence : Option Time) (j : Job) : Bool :=
  j.id == id && !j.status.isTerminal && fence.all fun f => j.claimedAt == some f

/-- The row a finish writes: an error counts as a failure, and the stamp stays. -/
def finishRow (now : Time) (status : JobStatus) (result : Json) (error : Option String) (j : Job) :
    Job :=
  { j with
    status := status
    result := result
    error := error
    updatedAt := now
    failures := j.failures + if error.isSome then 1 else 0 }

/-- `finish`. -/
def finish (t : JobTable) (now : Time) (id : String) (status : JobStatus) (result : Json)
    (error : Option String) (fence : Option Time) : JobFinish × JobTable :=
  let answer :=
    if t.rows.any (finishable id fence) then .finished
    else match t.get none id with
      | some j => .notHeld j.status j.claimedAt
      | none => .noSuchJob
  (answer, t.update (fun j =>
    if finishable id fence j then finishRow now status result error j else j) fun j => by
      split_ifs <;> rfl)

end JobTable

end LightTrack
