import LightTrack.Core.Event
import LightTrack.Core.Text
import Mathlib.Data.List.Nodup

/-! # Relay tasks

The cloud-to-device relay queue: apps enqueue tasks, enrolled devices lease them and
settle each with an outcome.  Two budgets end a task that does not succeed: reported
`failures`, and `staleReclaims`, the leases that ran out without a report.
-/

namespace LightTrack

/-- `RELAY_DEFAULT_MAX_ATTEMPTS`. -/
def RELAY_DEFAULT_MAX_ATTEMPTS : ℕ := 4

/-- `RELAY_DEFAULT_RETRY_INTERVAL_SECS`. -/
def RELAY_DEFAULT_RETRY_INTERVAL_SECS : ℕ := 18000

/-- `RELAY_MAX_STALE_RECLAIMS`. -/
def RELAY_MAX_STALE_RECLAIMS : ℕ := 3

/-- `RELAY_ERROR_DEVICE_LOST`. -/
def RELAY_ERROR_DEVICE_LOST : String :=
  "device lost: the device holding this task did not renew its lease before the deadline " ++
    "(crashed, killed, or offline) — this is not an action failure"

/-- Where a task stands. -/
inductive RelayStatus where
  | queued
  | leased
  | succeeded
  | dead
  | cancelling
  | cancelled
  deriving DecidableEq

namespace RelayStatus

/-- Nothing more happens to a task in this status. -/
def isTerminal : RelayStatus → Bool
  | succeeded | dead | cancelled => true
  | _ => false

/-- `is_live_lease`: a holder's write may still be accepted. -/
def isLiveLease : RelayStatus → Bool
  | leased | cancelling => true
  | _ => false

end RelayStatus

/-- One row of `relay_tasks`. -/
structure RelayTask where
  id : String
  projectId : String
  source : Option String
  actionType : String
  payload : Json
  status : RelayStatus
  attempts : ℕ
  failures : ℕ
  staleReclaims : ℕ
  /-- The instant the current lease was granted, its identity. -/
  leaseFence : Option Time
  progress : Option String
  maxAttempts : ℕ
  retryIntervalSecs : ℕ
  idempotencyKey : Option String
  device : Option String
  leaseDeadline : Option Time
  nextAttemptAt : Time
  result : Json
  error : Option String
  createdAt : Time
  updatedAt : Time

/-- How a device settles a task. -/
inductive RelayOutcome where
  | succeeded (result : Json)
  | failed (err : String)
  | deferred (retryAfterSecs : Option ℕ) (reason : Option String)

/-- What a cancel request did. -/
inductive RelayCancel where
  | cancelled
  | cancelling
  | alreadyFinished (status : RelayStatus)
  deriving DecidableEq

/-- What a settle did. -/
inductive RelaySettle where
  | settled (task : RelayTask)
  | notHeld (status : RelayStatus) (fence : Option Time)
  | noSuchTask

/-- What a renewal or a progress report did. -/
inductive LeaseHeld where
  | held (deadline : Option Time) (cancelRequested : Bool)
  | notHeld (status : RelayStatus) (fence : Option Time)
  | noSuchRecord
  deriving DecidableEq

/-- What an app asks for when it enqueues a task. -/
structure EnqueueReq where
  id : String
  projectId : String
  source : Option String := none
  actionType : String
  payload : Json := .null
  maxAttempts : Option ℕ := none
  retryIntervalSecs : Option ℕ := none
  idempotencyKey : Option String := none

/-- The row an enqueue writes; both budgets are floored at one. -/
def EnqueueReq.task (req : EnqueueReq) (now : Time) : RelayTask where
  id := req.id
  projectId := req.projectId
  source := req.source
  actionType := req.actionType
  payload := req.payload
  status := .queued
  attempts := 0
  failures := 0
  staleReclaims := 0
  leaseFence := none
  progress := none
  maxAttempts := max (req.maxAttempts.getD RELAY_DEFAULT_MAX_ATTEMPTS) 1
  retryIntervalSecs := max (req.retryIntervalSecs.getD RELAY_DEFAULT_RETRY_INTERVAL_SECS) 1
  idempotencyKey := req.idempotencyKey
  device := none
  leaseDeadline := none
  nextAttemptAt := now
  result := .null
  error := none
  createdAt := now
  updatedAt := now

/-! ## Capabilities -/

/-- `str::strip_suffix`. -/
def stripSuffix (s suffix : String) : Option String :=
  let cs := s.toList.reverse
  let ms := suffix.toList.reverse
  if ms.isPrefixOf cs then some (String.ofList (cs.drop ms.length).reverse) else none

/-- One advertised capability, against an action type: `ns/*` covers the actions under `ns/`. -/
def capabilityCovers (capability action : String) : Bool :=
  match stripSuffix capability "/*" with
  | some ns =>
    let start := ns ++ "/"
    String.ofList (action.toList.take start.length) == start
  | none => action == capability

/-- `CapabilityFilter`: no capability, or a wildcard among them, means no filter. -/
def capabilityFilter (capabilities : List String) (action : String) : Bool :=
  if capabilities.isEmpty || capabilities.any fun c => strTrim c == "*" then true
  else
    let named := (capabilities.map strTrim).filter fun c => c != ""
    named.isEmpty || named.any fun c => capabilityCovers c action

example : capabilityFilter ["xprice/*", "ops/nightly"] "xprice/refresh" = true ∧
    capabilityFilter ["ops_x/*"] "opsax/run" = false := by decide +kernel

end LightTrack
