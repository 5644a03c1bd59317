import LightTrack.Firestore.Jobs

/-! # Commits that land

One call at a time, the document that a round reads is the document it commits to, so every call
answers in its first round.  What it answers and writes is what the guarded statement of the SQL
queue answers and writes.

* `rounds_of_answer` : a round that answers is the last,
* `commitUpdate_eq` : a commit to a document that was just read lands,
* `renewJobLease_eq`, `finishJob_eq`, `cancelJob_eq` : the calls of a holder and of an operator.
-/

namespace LightTrack

namespace Firestore

open JobTable (renewable finishable)

/-! ## Documents and rows -/

@[simp] theorem jobs_rows (docs : JobDocs) : (jobs docs).rows = docs.rows.map JobDoc.fields := rfl

theorem find_jobs (docs : JobDocs) (id : String) :
    (jobs docs).find id = (docs.find id).map JobDoc.fields := by
  unfold Keyed.find
  rw [jobs_rows, List.find?_map]
  rfl

/-- The table after a write to the row of an id. -/
def JobWrite.table (w : JobWrite) (t : JobTable) (id : String) : JobTable :=
  t.update (fun j => if j.id = id then w.fields j else j) fun j => by
    split_ifs
    · exact w.id_fields j
    · rfl

/-- A commit to a document that was just read lands. -/
theorem commitUpdate_eq {docs : JobDocs} {d : JobDoc} (hd : d ∈ docs.rows) (w : JobWrite) :
    Prod.map id jobs (commitUpdate docs d.name w d.updateTime) =
      (true, w.table (jobs docs) d.name) := by
  have hcurrent : (docs.rows.any fun d' => d'.name == d.name && d'.updateTime == d.updateTime) =
      true := List.any_eq_true.2 ⟨d, hd, by simp⟩
  unfold commitUpdate
  rw [if_pos hcurrent]
  refine Prod.ext rfl (Keyed.ext ?_)
  show (docs.rows.map _).map JobDoc.fields = (docs.rows.map JobDoc.fields).map _
  rw [List.map_map, List.map_map]
  apply List.map_congr_left
  intro d' _
  show (if d'.name = d.name then w.doc d' else d').fields = _
  rw [apply_ite JobDoc.fields]
  rfl

/-- What follows a commit that lands. -/
theorem commitUpdate_landed {docs : JobDocs} {d : JobDoc} (hd : d ∈ docs.rows) (w : JobWrite) :
    (commitUpdate docs d.name w d.updateTime).1 = true ∧
      jobs (commitUpdate docs d.name w d.updateTime).2 = w.table (jobs docs) d.name :=
  ⟨congrArg Prod.fst (commitUpdate_eq hd w), congrArg Prod.snd (commitUpdate_eq hd w)⟩

/-! ## Rounds -/

/-- A round that answers is the last. -/
theorem rounds_of_answer {α : Type} {round : JobDocs → Option α × JobDocs} {lost answer : α} {n : ℕ}
    {docs : JobDocs} (h : (round docs).1 = some answer) :
    rounds round lost (n + 1) docs = (answer, (round docs).2) := by
  unfold rounds
  rcases hround : round docs with ⟨first, docs'⟩
  rw [hround] at h
  subst h
  rfl

/-! ## Renewing a lease -/

theorem renewLease_eq_write (t : JobTable) (now : Time) (id : String) (fence : Time) :
    t.renewLease now id fence =
      if (t.find id).any (renewable id fence) then (some now, (renewWrite now).table t id)
      else (none, t) := by
  have hkey : ∀ j, renewable id fence j = true → j.id = id :=
    fun j hj => (JobTable.renewable_iff.1 hj).1
  have hrows := t.map_guarded hkey (renewWrite now).fields
  unfold JobTable.renewLease
  rw [t.any_of_key hkey]
  split_ifs at hrows ⊢ with hany
  · exact Prod.ext rfl (Keyed.ext hrows)
  · exact Prod.ext rfl (Keyed.ext hrows)

/-- `renew_job_lease` is the guarded update. -/
theorem renewJobLease_eq (docs : JobDocs) (now : Time) (name : String) (fence : Time) :
    Prod.map id jobs (renewJobLease docs now name fence) =
      Prod.map Except.ok id ((jobs docs).renewLease now name fence) := by
  rw [renewLease_eq_write, find_jobs]
  unfold renewJobLease
  cases hfind : docs.find name with
  | none =>
    have hround : renewRound now name fence docs = (some (.ok none), docs) := by
      simp only [renewRound, hfind]
    rw [rounds_of_answer (congrArg Prod.fst hround), hround]
    rfl
  | some d =>
    rcases Keyed.find_eq_some_iff.1 hfind with ⟨hd, hid⟩
    rcases commitUpdate_landed hd (renewWrite now) with ⟨hlanded, hjobs⟩
    by_cases hrenew : renewable name fence d.fields = true
    · rcases JobTable.renewable_iff.1 hrenew with ⟨-, hstamp, hheld⟩
      have hround : renewRound now name fence docs =
          (some (.ok (some now)), (commitUpdate docs d.name (renewWrite now) d.updateTime).2) := by
        simp [renewRound, hfind, hstamp, hheld, hlanded]
      rw [rounds_of_answer (congrArg Prod.fst hround), hround]
      rw [Option.map_some, Option.any_some, if_pos hrenew]
      exact Prod.ext rfl (hid ▸ hjobs)
    · have hround : renewRound now name fence docs = (some (.ok none), docs) := by
        rw [JobTable.renewable_iff, not_and, not_and] at hrenew
        have hheld := hrenew hid
        by_cases hstamp : d.fields.claimedAt = some fence
        · simp [renewRound, hfind, hstamp, Bool.eq_false_iff.2 (hheld hstamp)]
        · simp [renewRound, hfind, hstamp]
      rw [rounds_of_answer (congrArg Prod.fst hround), hround]
      rw [Option.map_some, Option.any_some, if_neg hrenew]
      rfl

/-! ## Finishing -/

theorem finish_eq_write (t : JobTable) (now : Time) (id : String) (status : JobStatus)
    (result : Json) (error : Option String) (fence : Option Time) :
    t.finish now id status result error fence =
      if (t.find id).any (finishable id fence) then
        (.finished, (finishWrite now status result error).table t id)
      else (((t.find id).map fun j => JobFinish.notHeld j.status j.claimedAt).getD .noSuchJob, t) := by
  have hkey : ∀ j, finishable id fence j = true → j.id = id :=
    fun j hj => (JobTable.finishable_iff.1 hj).1
  have hrow : ∀ j, JobTable.finishRow now status result error j =
      (finishWrite now status result error).fields j := by
    intro j
    unfold JobTable.finishRow finishWrite
    cases error <;> rfl
  have hrows := t.map_guarded hkey (finishWrite now status result error).fields
  have hget : t.get none id = t.find id := by
    unfold JobTable.get
    cases t.find id <;> rfl
  unfold JobTable.finish
  rw [t.any_of_key hkey, hget]
  simp only [hrow]
  split_ifs at hrows ⊢ with hany
  · exact Prod.ext rfl (Keyed.ext hrows)
  · refine Prod.ext ?_ (Keyed.ext hrows)
    cases t.find id <;> rfl

/-- `finish_job` is the guarded update. -/
theorem finishJob_eq (docs : JobDocs) (now : Time) (name : String) (status : JobStatus)
    (result : Json) (error : Option String) (fence : Option Time) :
    Prod.map id jobs (finishJob docs now name status result error fence) =
      Prod.map Except.ok id ((jobs docs).finish now name status result error fence) := by
  rw [finish_eq_write, find_jobs]
  unfold finishJob
  cases hfind : docs.find name with
  | none =>
    have hround : finishRound now name status result error fence docs =
        (some (.ok .noSuchJob), docs) := by
      simp only [finishRound, hfind]
    rw [rounds_of_answer (congrArg Prod.fst hround), hround]
    rfl
  | some d =>
    rcases Keyed.find_eq_some_iff.1 hfind with ⟨hd, hid⟩
    rcases commitUpdate_landed hd (finishWrite now status result error) with ⟨hlanded, hjobs⟩
    -- what a round refuses is what the guard of the statement leaves out
    have hrefused : (d.fields.status.isTerminal ||
        fence.any fun want => d.fields.claimedAt != some want) =
          !finishable name fence d.fields := by
      have hid' : d.fields.id = name := hid
      cases fence <;> simp [finishable, hid', bne]
    by_cases hfinish : finishable name fence d.fields = true
    · have hround : finishRound now name status result error fence docs =
          (some (.ok .finished), (commitUpdate docs d.name
            (finishWrite now status result error) d.updateTime).2) := by
        simp [finishRound, hfind, hrefused, hfinish, hlanded]
      rw [rounds_of_answer (congrArg Prod.fst hround), hround]
      rw [Option.map_some, Option.any_some, if_pos hfinish]
      exact Prod.ext rfl (hid ▸ hjobs)
    · have hround : finishRound now name status result error fence docs =
          (some (.ok (.notHeld d.fields.status d.fields.claimedAt)), docs) := by
        simp [finishRound, hfind, hrefused, hfinish]
      rw [rounds_of_answer (congrArg Prod.fst hround), hround]
      rw [Option.map_some, Option.any_some, if_neg hfinish]
      rfl

/-! ## Cancelling -/

theorem get_eq (t : JobTable) (project : Option String) (id : String) :
    t.get project id = (t.find id).filter fun j => allows project j.projectId := by
  unfold JobTable.get allows
  cases project <;> rfl

/-- What a cancel reports. -/
theorem cancel_answer (t : JobTable) (now : Time) (project : Option String) (id : String) :
    (t.cancel now project id).1 = (t.get project id).map fun j =>
      ((cancelOutcome j.status).map Prod.snd).getD (.alreadyFinished j.status) := by
  unfold JobTable.cancel
  show (t.get project id).map _ = _
  congr 1
  funext j
  cases j.status <;> rfl

/-- A cancel in a scope that finds the job writes the status that follows its own. -/
theorem cancel_table_of_get {t : JobTable} {project : Option String} {id : String} {j : Job}
    (hget : t.get project id = some j) (now : Time) :
    (t.cancel now project id).2 =
      ((cancelOutcome j.status).map fun o => (cancelWrite now o.1).table t id).getD t := by
  rcases Option.filter_eq_some_iff.1 hget with ⟨hfind, hscope⟩
  rcases Keyed.find_eq_some_iff.1 hfind with ⟨hj, hid⟩
  apply Keyed.ext
  show t.rows.map (JobTable.cancelRow now project id) = _
  have hrow : ∀ j' ∈ t.rows, JobTable.cancelRow now project id j' =
      if j'.id = id then
        ((cancelOutcome j.status).map fun o => (cancelWrite now o.1).fields j').getD j'
      else j' := by
    intro j' hj'
    by_cases hid' : j'.id = id
    · have hsame := t.eq_of_key hj' hj (hid'.trans hid.symm)
      subst hsame
      unfold JobTable.cancelRow cancelWrite
      cases hstatus : j'.status <;> simp [hid, hscope, cancelOutcome]
    · unfold JobTable.cancelRow
      simp [hid']
  rw [List.map_congr_left hrow]
  cases cancelOutcome j.status with
  | none => simp
  | some o => rfl

theorem cancel_table_of_get_none {t : JobTable} {project : Option String} {id : String}
    (hget : t.get project id = none) (now : Time) : (t.cancel now project id).2 = t := by
  apply Keyed.ext
  show t.rows.map (JobTable.cancelRow now project id) = t.rows
  conv_rhs => rw [← List.map_id t.rows]
  refine List.map_congr_left (fun j hj => ?_)
  show JobTable.cancelRow now project id j = j
  apply if_neg
  -- the guard would have let the scope find the row
  intro hguard
  simp only [Bool.and_eq_true, beq_iff_eq] at hguard
  have hfind : t.find id = some j := Keyed.find_eq_some_iff.2 ⟨hj, hguard.1.1⟩
  rw [JobTable.get, hfind, Option.filter_some, if_pos hguard.2] at hget
  cases hget

/-- `cancel_job` is the guarded update. -/
theorem cancelJob_eq (docs : JobDocs) (now : Time) (project : Option String) (name : String) :
    Prod.map id jobs (cancelJob docs now project name) =
      Prod.map Except.ok id ((jobs docs).cancel now project name) := by
  have hget := get_eq (jobs docs) project name
  rw [find_jobs] at hget
  unfold cancelJob
  cases hfind : docs.find name with
  | none =>
    rw [hfind] at hget
    have hround : cancelRound now project name docs = (some (.ok none), docs) := by
      simp only [cancelRound, hfind]
    rw [rounds_of_answer (congrArg Prod.fst hround), hround]
    have hanswer := cancel_answer (jobs docs) now project name
    rw [hget] at hanswer
    exact Prod.ext (congrArg Except.ok hanswer.symm) (cancel_table_of_get_none hget now).symm
  | some d =>
    rw [hfind, Option.map_some, Option.filter_some] at hget
    rcases Keyed.find_eq_some_iff.1 hfind with ⟨hd, hid⟩
    by_cases hallows : allows project d.fields.projectId = true
    · rw [if_pos hallows] at hget
      have htable := cancel_table_of_get hget now
      have hanswer := cancel_answer (jobs docs) now project name
      rw [hget, Option.map_some] at hanswer
      cases houtcome : cancelOutcome d.fields.status with
      | none =>
        rw [houtcome] at htable hanswer
        have hround : cancelRound now project name docs =
            (some (.ok (some (.alreadyFinished d.fields.status))), docs) := by
          simp [cancelRound, hfind, hallows, houtcome]
        rw [rounds_of_answer (congrArg Prod.fst hround), hround]
        exact Prod.ext (congrArg Except.ok hanswer.symm) htable.symm
      | some o =>
        rw [houtcome] at htable hanswer
        -- nobody else writes within a round, so the first commit lands
        rcases commitUpdate_landed hd (cancelWrite now o.1) with ⟨hlanded, hjobs⟩
        have hround : cancelRound now project name docs =
            (some (.ok (some o.2)),
              (commitUpdate docs d.name (cancelWrite now o.1) d.updateTime).2) := by
          simp [cancelRound, hfind, hallows, houtcome, hlanded]
        rw [rounds_of_answer (congrArg Prod.fst hround), hround]
        refine Prod.ext (congrArg Except.ok hanswer.symm) (Eq.trans ?_ htable.symm)
        exact hid ▸ hjobs
    · rw [if_neg hallows] at hget
      have hround : cancelRound now project name docs = (some (.ok none), docs) := by
        simp only [cancelRound, hfind, hallows]
        rfl
      rw [rounds_of_answer (congrArg Prod.fst hround), hround]
      have hanswer := cancel_answer (jobs docs) now project name
      rw [hget] at hanswer
      exact Prod.ext (congrArg Except.ok hanswer.symm) (cancel_table_of_get_none hget now).symm

end Firestore

end LightTrack
