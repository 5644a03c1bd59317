import LightTrack.Lib.Run
import LightTrack.Relay.Task

/-! # The relay queue

Every write is one guarded statement under the store's lock, so a run of the queue is
a sequence of them, whoever issues them.  A holder's writes (renew, progress, settle)
name the fence the holder was handed; the operator's cancel and the sweep do not.

`grants` is history: the leases granted so far, in order.  No operation reads it.
-/

namespace LightTrack

/-- The tasks, by id. -/
structure RelayTable where
  tasks : List RelayTask
  ids : (tasks.map RelayTask.id).Nodup

namespace RelayTable

/-- Rewrite rows in place. -/
def update (t : RelayTable) (f : RelayTask → RelayTask) (hid : ∀ r, (f r).id = r.id) :
    RelayTable where
  tasks := t.tasks.map f
  ids := by
    have hcomp : RelayTask.id ∘ f = RelayTask.id := funext hid
    rw [List.map_map, hcomp]
    exact t.ids

@[simp] theorem update_tasks (t : RelayTable) (f : RelayTask → RelayTask)
    (hid : ∀ r, (f r).id = r.id) : (t.update f hid).tasks = t.tasks.map f := rfl

/-- `get`: one task, optionally of one project. -/
def get (t : RelayTable) (project : Option String) (id : String) : Option RelayTask :=
  t.tasks.find? fun r => r.id == id && project.all (r.projectId == ·)

/-- `create`: a taken id or a taken `(project, idempotency_key)` is refused. -/
def create (t : RelayTable) (task : RelayTask) : Option RelayTable :=
  if hid : task.id ∈ t.tasks.map RelayTask.id then none
  else if task.idempotencyKey.isSome &&
      t.tasks.any fun r =>
        r.projectId == task.projectId && r.idempotencyKey == task.idempotencyKey then none
  else some
    { tasks := t.tasks ++ [task]
      ids := by
        rw [List.map_append]
        refine List.nodup_append.2 ⟨t.ids, by simp, fun a ha b hb hab => hid ?_⟩
        have hb' : b = task.id := by simpa using hb
        rw [← hb', ← hab]
        exact ha }

/-! ## Leasing -/

/-- The tasks a device may lease now: due, or held under a lease that ran out while both budgets
have some left. -/
def leasable (now : Time) (capabilities : List String) (r : RelayTask) : Bool :=
  ((r.status == .queued && decide (r.nextAttemptAt ≤ now)) ||
      (r.status == .leased && r.leaseDeadline.any (fun d => decide (d < now)) &&
        decide (r.failures < r.maxAttempts) &&
        decide (r.staleReclaims < RELAY_MAX_STALE_RECLAIMS))) &&
    capabilityFilter capabilities r.actionType

/-- `now + Duration::seconds(secs.max(0))`. -/
def deadlineAt (now : Time) (leaseSecs : Int) : Time := now + max leaseSecs 0 * Time.second

/-- The row a lease writes. Taking over a lease that ran out counts a lost device. -/
def leaseRow (device : String) (now deadline : Time) (r : RelayTask) : RelayTask :=
  { r with
    status := .leased
    device := some device
    leaseDeadline := some deadline
    leaseFence := some now
    attempts := r.attempts + 1
    progress := none
    staleReclaims := r.staleReclaims + if r.status = .leased then 1 else 0
    error := if r.status = .leased then some RELAY_ERROR_DEVICE_LOST else r.error
    updatedAt := now }

/-- The ids a lease picks: the oldest leasable tasks, up to `max`. -/
def leaseIds (t : RelayTable) (now : Time) (capabilities : List String) (max : ℕ) : List String :=
  (((t.tasks.filter (leasable now capabilities)).mergeSort fun a b =>
    decide (a.createdAt ≤ b.createdAt)).take max).map RelayTask.id

/-- `lease`: the leased rows and the table. -/
def lease (t : RelayTable) (now : Time) (device : String) (capabilities : List String)
    (leaseSecs : Int) (max : ℕ) : List RelayTask × RelayTable :=
  let ids := t.leaseIds now capabilities max
  let row := fun r : RelayTask =>
    if r.id ∈ ids then leaseRow device now (deadlineAt now leaseSecs) r else r
  ((t.tasks.filter fun r => decide (r.id ∈ ids)).map row,
    t.update row fun r => by
      show (row r).id = r.id
      unfold row
      split_ifs <;> rfl)

/-! ## The sweep -/

/-- A lease that ran out with a budget spent. -/
def sweepable (now : Time) (r : RelayTask) : Bool :=
  r.status == .leased && r.leaseDeadline.any (fun d => decide (d < now)) &&
    (decide (r.maxAttempts ≤ r.failures) || decide (RELAY_MAX_STALE_RECLAIMS ≤ r.staleReclaims))

/-- The row the sweep writes. -/
def sweepRow (now : Time) (r : RelayTask) : RelayTask :=
  if sweepable now r then
    { r with
      status := .dead
      error := r.error.or (some RELAY_ERROR_DEVICE_LOST)
      leaseDeadline := none
      leaseFence := none
      updatedAt := now }
  else r

/-- `sweep_dead`: the rows that died and the table. -/
def sweepDead (t : RelayTable) (now : Time) : List RelayTask × RelayTable :=
  ((t.tasks.filter (sweepable now)).map (sweepRow now),
    t.update (sweepRow now) fun r => by
      unfold sweepRow
      split_ifs <;> rfl)

/-! ## A holder's writes -/

/-- `id = ?1 AND lease_fence = ?2 AND status IN ('leased','cancelling')`. -/
def holds (id : String) (fence : Time) (r : RelayTask) : Bool :=
  r.id == id && r.leaseFence == some fence && r.status.isLiveLease

/-- Rewrite the row a holder still holds. -/
def holderWrite (t : RelayTable) (id : String) (fence : Time) (f : RelayTask → RelayTask)
    (hid : ∀ r, (f r).id = r.id) : RelayTable :=
  t.update (fun r => if holds id fence r then f r else r) fun r => by
    split_ifs
    · exact hid r
    · rfl

/-- The answer to a conditioned write: whether it landed, and what the record holds if not. -/
def heldAnswer (t : RelayTable) (id : String) (fence : Time) (deadline : Option Time) : LeaseHeld :=
  match t.tasks.find? (holds id fence) with
  | some r => .held deadline (decide (r.status = .cancelling))
  | none =>
    match t.get none id with
    | some r => .notHeld r.status r.leaseFence
    | none => .noSuchRecord

/-- `renew`. -/
def renew (t : RelayTable) (now : Time) (id : String) (fence : Time) (leaseSecs : Int) :
    LeaseHeld × RelayTable :=
  let deadline := deadlineAt now leaseSecs
  (t.heldAnswer id fence (some deadline),
    t.holderWrite id fence
      (fun r => { r with leaseDeadline := some deadline, updatedAt := now }) fun _ => rfl)

/-- `update_progress`. -/
def updateProgress (t : RelayTable) (now : Time) (id : String) (fence : Time) (progress : String) :
    LeaseHeld × RelayTable :=
  (t.heldAnswer id fence none,
    t.holderWrite id fence
      (fun r => { r with progress := some progress, updatedAt := now }) fun _ => rfl)

/-- The row a settle writes over a held one. A cancelled run ends as `cancelled`, whatever it
reports, and spends no budget. -/
def settleRow (now : Time) (outcome : RelayOutcome) (r : RelayTask) : RelayTask :=
  let cancelling := decide (r.status = .cancelling)
  match outcome with
  | .succeeded result =>
    { r with
      status := if cancelling then .cancelled else .succeeded
      result := result
      error := none
      leaseDeadline := none
      leaseFence := none
      updatedAt := now }
  | .failed err =>
    let failures := r.failures + if cancelling then 0 else 1
    let ending : RelayStatus × Time :=
      if cancelling then (.cancelled, r.nextAttemptAt)
      else if r.maxAttempts ≤ failures then (.dead, r.nextAttemptAt)
      else (.queued, now + r.retryIntervalSecs * Time.second)
    { r with
      status := ending.1
      error := some err
      nextAttemptAt := ending.2
      failures := failures
      leaseDeadline := none
      leaseFence := none
      updatedAt := now }
  | .deferred retryAfterSecs reason =>
    -- the claim is handed back
    { r with
      status := if cancelling then .cancelled else .queued
      attempts := r.attempts - 1
      error := reason.or r.error
      nextAttemptAt := now + (retryAfterSecs.getD r.retryIntervalSecs : ℕ) * Time.second
      leaseDeadline := none
      leaseFence := none
      updatedAt := now }

theorem settleRow_id (now : Time) (outcome : RelayOutcome) (r : RelayTask) :
    (settleRow now outcome r).id = r.id := by
  cases outcome <;> rfl

/-- `settle`. Without a fence the ownership condition is waived, never the liveness one. -/
def settle (t : RelayTable) (now : Time) (id : String) (fence : Option Time)
    (outcome : RelayOutcome) : RelaySettle × RelayTable :=
  match t.get none id with
  | none => (.noSuchTask, t)
  | some task =>
    if task.status.isLiveLease && fence.all (fun f => task.leaseFence == some f) then
      let t' := t.update (fun r => if r.id = id then settleRow now outcome r else r) fun r => by
        split_ifs
        · exact settleRow_id now outcome r
        · rfl
      (match t'.get none id with
        | some task => .settled task
        | none => .noSuchTask, t')
    else (.notHeld task.status task.leaseFence, t)

/-! ## The operator's cancel -/

/-- The row a cancel writes. -/
def cancelRow (now : Time) (project : Option String) (id : String) (r : RelayTask) : RelayTask :=
  if r.id == id && (r.status == .queued || r.status == .leased) && project.all (r.projectId == ·)
  then
    { r with
      status := if r.status = .queued then .cancelled else .cancelling
      updatedAt := now }
  else r

/-- `cancel`. -/
def cancel (t : RelayTable) (now : Time) (project : Option String) (id : String) :
    Option RelayCancel × RelayTable :=
  let answer := match t.get project id with
    | none => none
    | some r =>
      if r.status = .queued then some .cancelled
      else if r.status = .leased then some .cancelling
      else some (.alreadyFinished r.status)
  (answer, t.update (cancelRow now project id) fun r => by
    unfold cancelRow
    split_ifs <;> rfl)

end RelayTable

/-! ## Runs -/

/-- One call on the queue. -/
inductive RelayOp where
  | enqueue (req : EnqueueReq)
  | lease (device : String) (capabilities : List String) (leaseSecs : Int) (max : ℕ)
  | sweepDead
  | renew (id : String) (fence : Time) (leaseSecs : Int)
  | updateProgress (id : String) (fence : Time) (progress : String)
  | settle (id : String) (fence : Option Time) (outcome : RelayOutcome)
  | cancel (project : Option String) (id : String)

/-- The ids a call leases. -/
def RelayOp.leases (op : RelayOp) (now : Time) (t : RelayTable) : List String :=
  match op with
  | .lease _ capabilities _ max => t.leaseIds now capabilities max
  | _ => []

/-- A holder's write: the task and the fence it names. -/
def RelayOp.holder : RelayOp → Option (String × Time)
  | .renew id fence _ => some (id, fence)
  | .updateProgress id fence _ => some (id, fence)
  | .settle id fence _ => fence.map (id, ·)
  | _ => none

/-- The queue, and the leases granted so far. -/
structure RelayQueue where
  table : RelayTable
  grants : List (String × Time)

namespace RelayQueue

/-- The fences granted on one task, in order. -/
def grantsOf (q : RelayQueue) (id : String) : List Time :=
  (q.grants.filter fun g => g.1 == id).map Prod.snd

/-- Run one call at `now`. -/
def exec (now : Time) (op : RelayOp) (q : RelayQueue) : Sys.Timed Time RelayQueue :=
  match op with
  | .enqueue req => ⟨now, { q with table := (q.table.create (req.task now)).getD q.table }⟩
  | .lease device capabilities leaseSecs max =>
    let (leased, table) := q.table.lease now device capabilities leaseSecs max
    ⟨now, { table, grants := q.grants ++ leased.map fun r => (r.id, now) }⟩
  | .sweepDead => ⟨now, { q with table := (q.table.sweepDead now).2 }⟩
  | .renew id fence leaseSecs => ⟨now, { q with table := (q.table.renew now id fence leaseSecs).2 }⟩
  | .updateProgress id fence progress =>
    ⟨now, { q with table := (q.table.updateProgress now id fence progress).2 }⟩
  | .settle id fence outcome => ⟨now, { q with table := (q.table.settle now id fence outcome).2 }⟩
  | .cancel project id => ⟨now, { q with table := (q.table.cancel now project id).2 }⟩

/-- One call under a clock that does not go backwards. -/
abbrev Step := Sys.Ticks exec

/-- Nothing has been leased yet. -/
def Init (s : Sys.Timed Time RelayQueue) : Prop :=
  s.state.grants = [] ∧ ∀ r ∈ s.state.table.tasks, r.leaseFence = none

end RelayQueue

end LightTrack
