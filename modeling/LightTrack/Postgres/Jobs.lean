import LightTrack.Jobs.Cancelled
import LightTrack.Postgres.Usage

/-! # The job queue in Postgres

The statements of the SQLite queue in Postgres's words: an array of kinds that may be null, `CASE`
for the counters, and a lease that is read back from the row.  One call at a time, no row is locked
when a claim looks for its candidate, so `SKIP LOCKED` skips nothing.

What Postgres adds is that no text it is handed can hold U+0000: such a call fails.
-/

namespace LightTrack

namespace Postgres

open JobTable (claimRow cancelRow finishRow renewable finishable)

/-- `$4::text[]`: no array stands for every kind. -/
def kindsArr (kinds : List String) : Option (List String) :=
  if kinds.isEmpty then none else some kinds

/-- The `WHERE` of the candidate. -/
def claimable (stale : Time) (kinds : Option (List String)) (j : Job) : Bool :=
  (j.status == .queued ||
      (j.status == .running && j.claimedAt.any fun c => decide (c < stale))) &&
    (kinds.isNone || kinds.any fun ks => ks.any fun k => j.jobType == k)

/-- The texts that can be bound. -/
def bindable (texts : List String) : Bool := texts.all fun s => !s.toList.contains '\x00'

/-- A statement that binds these texts. -/
def bound {α : Type} (texts : List String) (t : JobTable) (run : α × JobTable) :
    Except StoreError α × JobTable :=
  if bindable texts then (.ok run.1, run.2) else (.error (pgerr .nulInText), t)

theorem bound_eq_ok_iff {α : Type} {texts : List String} {t : JobTable} {run : α × JobTable} :
    bound texts t run = Prod.map Except.ok id run ↔ bindable texts = true := by
  unfold bound
  constructor
  · intro h
    split_ifs at h with hbindable
    · exact hbindable
    · cases congrArg Prod.fst h
  · intro h
    exact if_pos h

theorem claimed_id (now : Time) (id : String) (j : Job) :
    (if j.id = id then claimRow now j else j).id = j.id := by
  split_ifs
  · rfl
  · rfl

theorem renewed_id (now : Time) (id : String) (fence : Time) (j : Job) :
    (if renewable id fence j then { j with claimedAt := some now, updatedAt := now } else j).id =
      j.id := by
  split_ifs
  · rfl
  · rfl

theorem cancelRow_id (now : Time) (project : Option String) (id : String) (j : Job) :
    (cancelRow now project id j).id = j.id := by
  unfold cancelRow
  split_ifs
  · rfl
  · rfl
  · rfl

/-- The second statement of `claim`. -/
def claimCandidate (t : JobTable) (now staleBefore : Time) (kinds : List String) :
    Option Job × JobTable :=
  let candidate := ((t.rows.filter (claimable staleBefore (kindsArr kinds))).mergeSort fun a b =>
    decide (a.createdAt ≤ b.createdAt)).head?.map Job.id
  match candidate with
  | none => (none, t)
  | some id =>
    let t := t.update (fun j => if j.id = id then claimRow now j else j) (claimed_id now id)
    (t.find id, t)

/-- `claim`: the sweep is a statement of its own, and binds no kinds. -/
def claimJob (t : JobTable) (now staleBefore : Time) (kinds : List String) :
    Except StoreError (Option Job) × JobTable :=
  let t := t.sweepOrphans now staleBefore
  bound kinds t (claimCandidate t now staleBefore kinds)

/-- The statement of `renew_lease`: the stamp is read back from the row that was written. -/
def renewReturning (t : JobTable) (now : Time) (id : String) (fence : Time) :
    Option Time × JobTable :=
  let written := t.update (fun j =>
    if renewable id fence j then { j with claimedAt := some now, updatedAt := now } else j)
    (renewed_id now id fence)
  (if t.rows.any (renewable id fence) then (written.find id).bind Job.claimedAt else none, written)

/-- `renew_lease`. -/
def renewLease (t : JobTable) (now : Time) (id : String) (fence : Time) :
    Except StoreError (Option Time) × JobTable :=
  bound [id] t (renewReturning t now id fence)

/-- The statement of `finish`, and what is read where it refuses. -/
def finishReturning (t : JobTable) (now : Time) (id : String) (status : JobStatus) (result : Json)
    (error : Option String) (fence : Option Time) : JobFinish × JobTable :=
  let written := t.update (fun j =>
    if finishable id fence j then
      { j with
        status := status
        result := result
        error := error
        updatedAt := now
        failures := j.failures + if error.isNone then 0 else 1 }
    else j) fun j => by split_ifs <;> rfl
  let landed := (t.rows.find? (finishable id fence)).map Job.id
  if landed.isSome then (.finished, written)
  else
    (match t.get none id with
      | some j => .notHeld j.status j.claimedAt
      | none => .noSuchJob, written)

/-- `finish`. -/
def finishJob (t : JobTable) (now : Time) (id : String) (status : JobStatus) (result : Json)
    (error : Option String) (fence : Option Time) : Except StoreError JobFinish × JobTable :=
  bound (id :: error.toList) t (finishReturning t now id status result error fence)

/-- The statement of `cancel`: the new status is read back from the row that was written. -/
def cancelReturning (t : JobTable) (now : Time) (project : Option String) (id : String) :
    Option JobCancel × JobTable :=
  let cancellable (j : Job) : Bool :=
    j.id == id && (j.status == .queued || j.status == .running) &&
      project.all fun p => j.projectId == some p
  let written := t.update (cancelRow now project id) (cancelRow_id now project id)
  let newStatus := if t.rows.any cancellable then (written.find id).map Job.status else none
  (match newStatus with
    | some .cancelled => some .cancelled
    | some _ => some .cancelling
    | none => (t.get project id).map fun j => .alreadyFinished j.status, written)

/-- `cancel`. -/
def cancelJob (t : JobTable) (now : Time) (project : Option String) (id : String) :
    Except StoreError (Option JobCancel) × JobTable :=
  bound (id :: project.toList) t (cancelReturning t now project id)

/-! ## The same queue -/

theorem claimable_kindsArr (stale : Time) (kinds : List String) :
    claimable stale (kindsArr kinds) = JobTable.claimable stale kinds := by
  funext j
  unfold claimable JobTable.claimable kindsArr
  congr 1
  cases kinds with
  | nil => rfl
  | cons k ks =>
    rw [if_neg (by simp), Bool.eq_iff_iff]
    simp

theorem claimCandidate_eq (t : JobTable) (now staleBefore : Time) (kinds : List String) :
    claimCandidate (t.sweepOrphans now staleBefore) now staleBefore kinds =
      t.claim now staleBefore kinds := by
  unfold claimCandidate JobTable.claim JobTable.claimId
  rewrite [claimable_kindsArr]
  rfl

theorem renewReturning_eq (t : JobTable) (now : Time) (id : String) (fence : Time) :
    renewReturning t now id fence = t.renewLease now id fence := by
  unfold renewReturning JobTable.renewLease
  refine Prod.ext ?_ rfl
  simp only
  split_ifs with hany
  · rcases List.any_eq_true.1 hany with ⟨j, hj, hrenew⟩
    have hid := (JobTable.renewable_iff.1 hrenew).1
    rw [Keyed.find_update, Keyed.find_eq_some_iff.2 ⟨hj, hid⟩, Option.map_some, if_pos hrenew]
    rfl
  · rfl

theorem finishReturning_eq (t : JobTable) (now : Time) (id : String) (status : JobStatus) (result : Json)
    (error : Option String) (fence : Option Time) :
    finishReturning t now id status result error fence =
      t.finish now id status result error fence := by
  have hlanded : ((t.rows.find? (finishable id fence)).map Job.id).isSome =
      t.rows.any (finishable id fence) := by
    rw [Option.isSome_map, List.isSome_find?]
  unfold finishReturning JobTable.finish
  simp only [hlanded]
  refine Prod.ext ?_ ?_
  · split_ifs <;> rfl
  · -- a `CASE` that counts no error as nothing, against one that counts an error as one
    rw [apply_ite Prod.snd, ite_self]
    cases error <;> rfl

theorem cancelReturning_eq (t : JobTable) (now : Time) (project : Option String) (id : String) :
    cancelReturning t now project id = t.cancel now project id := by
  unfold cancelReturning JobTable.cancel
  refine Prod.ext ?_ rfl
  simp only
  cases hget : t.get project id with
  | none =>
    rw [if_neg]
    · rfl
    · rw [List.any_eq_true]
      rintro ⟨j, hj, hcancellable⟩
      simp only [Bool.and_eq_true, beq_iff_eq] at hcancellable
      rcases hcancellable with ⟨⟨hid, -⟩, hscope⟩
      have hfind : t.find id = some j := Keyed.find_eq_some_iff.2 ⟨hj, hid⟩
      rw [JobTable.get, hfind, Option.filter_some, if_pos hscope] at hget
      cases hget
  | some j =>
    rcases Option.filter_eq_some_iff.1 hget with ⟨hfind, hscope⟩
    rcases Keyed.find_eq_some_iff.1 hfind with ⟨hj, hid⟩
    have hkey : ∀ j : Job, (j.id == id && (j.status == .queued || j.status == .running) &&
        project.all fun p => j.projectId == some p) = true → j.id = id := by
      intro j hj
      simp only [Bool.and_eq_true, beq_iff_eq] at hj
      exact hj.1.1
    rw [t.any_of_key hkey, hfind, Keyed.find_update, hfind]
    -- of the row in scope the update rewrites exactly the statuses that can be cancelled
    unfold cancelRow
    cases hstatus : j.status <;> simp [hstatus, hid, hscope]

end Postgres

end LightTrack
