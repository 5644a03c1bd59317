import LightTrack.Jobs.Cancelled
import LightTrack.Lib.Extremum
import LightTrack.Store.Sql
import Mathlib.Data.Prod.Lex

/-! # The job queue in Firestore

Firestore has no conditional update.  Each call reads a document, decides, and commits its write
under the precondition that the document still has the update time that was read; a commit that
fails is followed by another round, five at most.

A claim looks for the oldest queued job, and only where there is none for a job under a stale stamp,
which Firestore returns in the order of its index: by stamp, then by name.
-/

namespace LightTrack

namespace Firestore

/-- A document of the collection `jobs`. -/
structure JobDoc where
  fields : Job
  updateTime : ℕ

/-- A document is named by the id of its job. -/
def JobDoc.name (d : JobDoc) : String := d.fields.id

/-- The documents, by name. -/
abbrev JobDocs := Keyed JobDoc.name

/-- The rows that the documents stand for. -/
def jobs (docs : JobDocs) : JobTable where
  rows := docs.rows.map JobDoc.fields
  keys := by
    rw [List.map_map]
    exact docs.keys

/-! ## Compare and commit -/

/-- A write that leaves the id alone. -/
structure JobWrite where
  fields : Job → Job
  id_fields : ∀ j, (fields j).id = j.id

/-- The document that a write leaves. -/
def JobWrite.doc (w : JobWrite) (d : JobDoc) : JobDoc where
  fields := w.fields d.fields
  updateTime := d.updateTime + 1

/-- `commit_update`: whether the write landed, and the documents. -/
def commitUpdate (docs : JobDocs) (name : String) (w : JobWrite) (updateTime : ℕ) :
    Bool × JobDocs :=
  if docs.rows.any fun d => d.name == name && d.updateTime == updateTime then
    (true, docs.update (fun d => if d.name = name then w.doc d else d) fun d => by
      split_ifs
      · exact w.id_fields d.fields
      · rfl)
  else (false, docs)

/-- Rounds of read, decide and commit. A round without an answer lost its commit. -/
def rounds {α : Type} (round : JobDocs → Option α × JobDocs) (lost : α) :
    ℕ → JobDocs → α × JobDocs
  | 0, docs => (lost, docs)
  | n + 1, docs =>
    match round docs with
    | (some answer, docs) => (answer, docs)
    | (none, docs) => rounds round lost n docs

/-! ## A holder's writes -/

/-- What `renew_job_lease` writes. -/
def renewWrite (now : Time) : JobWrite where
  fields j := { j with claimedAt := some now, updatedAt := now }
  id_fields _ := rfl

/-- One round of `renew_job_lease`. -/
def renewRound (now : Time) (id : String) (fence : Time) (docs : JobDocs) :
    Option (Except StoreError (Option Time)) × JobDocs :=
  match docs.find id with
  | none => (some (.ok none), docs)
  | some d =>
    if d.fields.claimedAt ≠ some fence then (some (.ok none), docs)
    else if d.fields.status.isHeld = false then (some (.ok none), docs)
    else
      let (landed, docs) := commitUpdate docs d.name (renewWrite now) d.updateTime
      (if landed then some (.ok (some now)) else none, docs)

/-- `renew_job_lease`. -/
def renewJobLease (docs : JobDocs) (now : Time) (id : String) (fence : Time) :
    Except StoreError (Option Time) × JobDocs :=
  rounds (renewRound now id fence)
    (.error (.conflict ("job '" ++ id ++ "' changed under every lease-renewal attempt; retry"))) 5 docs

/-- What `finish_job` writes. -/
def finishWrite (now : Time) (status : JobStatus) (result : Json) (error : Option String) :
    JobWrite where
  fields j :=
    { j with
      status := status
      result := result
      error := error
      updatedAt := now
      failures := if error.isSome then j.failures + 1 else j.failures }
  id_fields _ := rfl

/-- One round of `finish_job`. -/
def finishRound (now : Time) (id : String) (status : JobStatus) (result : Json)
    (error : Option String) (fence : Option Time) (docs : JobDocs) :
    Option (Except StoreError JobFinish) × JobDocs :=
  match docs.find id with
  | none => (some (.ok .noSuchJob), docs)
  | some d =>
    let refused := d.fields.status.isTerminal ||
      fence.any fun want => d.fields.claimedAt != some want
    if refused then (some (.ok (.notHeld d.fields.status d.fields.claimedAt)), docs)
    else
      let (landed, docs) :=
        commitUpdate docs d.name (finishWrite now status result error) d.updateTime
      (if landed then some (.ok .finished) else none, docs)

/-- `finish_job`. -/
def finishJob (docs : JobDocs) (now : Time) (id : String) (status : JobStatus) (result : Json)
    (error : Option String) (fence : Option Time) : Except StoreError JobFinish × JobDocs :=
  rounds (finishRound now id status result error fence)
    (.error (.conflict ("job '" ++ id ++ "' changed under every finish attempt; retry"))) 5 docs

/-! ## Cancel -/

/-- `scope::allows`. -/
def allows (project owner : Option String) : Bool :=
  match project with
  | none => true
  | some p => owner == some p

/-- What `cancel_job` writes. -/
def cancelWrite (now : Time) (next : JobStatus) : JobWrite where
  fields j := { j with status := next, updatedAt := now }
  id_fields _ := rfl

/-- The status a cancel leads to and what it reports, where there is something to cancel. -/
def cancelOutcome : JobStatus → Option (JobStatus × JobCancel)
  | .queued => some (.cancelled, .cancelled)
  | .running => some (.cancelling, .cancelling)
  | _ => none

/-- One round of `cancel_job`. -/
def cancelRound (now : Time) (project : Option String) (id : String) (docs : JobDocs) :
    Option (Except StoreError (Option JobCancel)) × JobDocs :=
  match docs.find id with
  | none => (some (.ok none), docs)
  | some d =>
    if allows project d.fields.projectId = false then (some (.ok none), docs)
    else
      match cancelOutcome d.fields.status with
      | none => (some (.ok (some (.alreadyFinished d.fields.status))), docs)
      | some (next, outcome) =>
        let (landed, docs) := commitUpdate docs d.name (cancelWrite now next) d.updateTime
        (if landed then some (.ok (some outcome)) else none, docs)

/-- `cancel_job`. -/
def cancelJob (docs : JobDocs) (now : Time) (project : Option String) (id : String) :
    Except StoreError (Option JobCancel) × JobDocs :=
  rounds (cancelRound now project id)
    (.error (.conflict ("job '" ++ id ++ "' changed under every cancel attempt; retry"))) 5 docs

/-! ## Claim -/

/-- `claimed_at LESS_THAN stale`, under one status. -/
def staleUnder (status : JobStatus) (stale : Time) (j : Job) : Bool :=
  j.status == status && j.claimedAt.any fun c => decide (c < stale)

/-- `kind_filter`: no filter where no kind is declared. -/
def ofKinds (kinds : List String) (j : Job) : Bool :=
  kinds.isEmpty || decide (j.jobType ∈ kinds)

/-- Where an inequality on `claimed_at` puts a document: in the order of the stamps, then of the
names. A document without a stamp does not meet the inequality. -/
def stampKey (j : Job) : Time ×ₗ String := toLex (j.claimedAt.getD 0, j.id)

/-- What `settle_orphaned_cancels` writes. -/
def settleWrite (now : Time) : JobWrite where
  fields j :=
    { j with status := .cancelled, updatedAt := now, error := some JOB_ERROR_CANCEL_ORPHANED }
  id_fields _ := rfl

/-- The documents that one sweep settles: twenty at most. -/
def orphanDocs (stale : Time) (docs : JobDocs) : List JobDoc :=
  ((docs.rows.filter fun d => staleUnder .cancelling stale d.fields).mergeSort fun a b =>
    decide (stampKey a.fields ≤ stampKey b.fields)).take 20

/-- `settle_orphaned_cancels`. -/
def settleOrphanedCancels (docs : JobDocs) (now stale : Time) : JobDocs :=
  (orphanDocs stale docs).foldl
    (fun docs d => (commitUpdate docs d.name (settleWrite now) d.updateTime).2) docs

/-- `oldest_queued`. -/
def oldestQueued (docs : JobDocs) (kinds : List String) : Option JobDoc :=
  Extremum.first (fun d => (toLex (d.fields.createdAt, d.fields.id) : Time ×ₗ String))
    (docs.rows.filter fun d => d.fields.status == .queued && ofKinds kinds d.fields)

/-- `oldest_stale`. -/
def oldestStale (docs : JobDocs) (stale : Time) (kinds : List String) : Option JobDoc :=
  Extremum.first (fun d => stampKey d.fields)
    (docs.rows.filter fun d => staleUnder .running stale d.fields && ofKinds kinds d.fields)

/-- What `claim_job` writes. -/
def claimWrite (now : Time) (reclaimed : Bool) : JobWrite where
  fields j :=
    { j with
      status := .running
      claimedAt := some now
      updatedAt := now
      attempts := j.attempts + 1
      staleReclaims := j.staleReclaims + if reclaimed then 1 else 0
      error := if reclaimed then some JOB_ERROR_WORKER_LOST else j.error }
  id_fields _ := rfl

/-- The candidate of a round: a stale job only where none is queued. -/
def candidate (docs : JobDocs) (stale : Time) (kinds : List String) : Option JobDoc :=
  (oldestQueued docs kinds).or (oldestStale docs stale kinds)

/-- One round of `claim_job`. -/
def claimRound (now staleBefore : Time) (kinds : List String) (docs : JobDocs) :
    Option (Option Job) × JobDocs :=
  match candidate docs staleBefore kinds with
  | none => (some none, docs)
  | some d =>
    let w := claimWrite now (d.fields.status == .running)
    let (landed, docs) := commitUpdate docs d.name w d.updateTime
    (if landed then some (some (w.fields d.fields)) else none, docs)

/-- `claim_job`: after five lost races nothing is claimed. -/
def claimJob (docs : JobDocs) (now staleBefore : Time) (kinds : List String) :
    Option Job × JobDocs :=
  rounds (claimRound now staleBefore kinds) none 5 (settleOrphanedCancels docs now staleBefore)

end Firestore

end LightTrack
