import LightTrack.Api.ScheduleSweep
import LightTrack.Jobs.Cancelled
import Mathlib.Data.List.Count

/-! # Stacked copies of a schedule's work

Whether two jobs of one schedule can be in flight at once.

* `QueueOp.apply_inFlight_le` : nothing but the sweep adds a job of a schedule to those in flight,
* `never_stacked` : there is at most one, in runs in which the sweep's look at the running jobs shows
  every job of the schedule that is in flight,
* `stacked_while_cancelling` : a job that is being cancelled is not looked at.
-/

namespace LightTrack

open Schedule

/-- A job of the schedule that has not ended. -/
def live (id : String) (kind : JobKind) (j : Job) : Bool := produced id kind j && !j.status.isTerminal

/-- How many jobs of the schedule have not ended. -/
def JobTable.inFlight (t : JobTable) (id : String) (kind : JobKind) : ℕ :=
  t.rows.countP (live id kind)

/-! ## What the queue does to the jobs in flight -/

section

variable {id : String} {kind : JobKind}

/-- A job that keeps its payload and type, and that was not ended before, is one that was in
flight. -/
theorem live_of_kept {j j' : Job} (h : live id kind j' = true) (hpayload : j'.payload = j.payload)
    (htype : j'.jobType = j.jobType)
    (hstatus : j'.status.isTerminal = false → j.status.isTerminal = false) :
    live id kind j = true := by
  simp only [live, produced, hpayload, htype, Bool.and_eq_true, Bool.not_eq_true'] at h ⊢
  exact ⟨h.1, hstatus h.2⟩

theorem inFlight_map_le {t t' : JobTable} {f : Job → Job} (hrows : t'.rows = t.rows.map f)
    (hf : ∀ j ∈ t.rows, live id kind (f j) = true → live id kind j = true) :
    t'.inFlight id kind ≤ t.inFlight id kind := by
  unfold JobTable.inFlight
  rw [hrows, List.countP_map]
  exact List.countP_mono_left hf

theorem live_cancelRow {now : Time} {project : Option String} {k : String} {j : Job}
    (h : live id kind (JobTable.cancelRow now project k j) = true) : live id kind j = true := by
  rcases JobTable.cancelRow_cases now project k j with hsame | ⟨hstatus, hrow⟩
  · rw [hsame] at h
    exact h
  · rw [hrow] at h
    refine live_of_kept h rfl rfl fun _ => ?_
    rcases hstatus with hstatus | hstatus <;> rw [hstatus] <;> rfl

theorem live_orphanRow {now staleBefore : Time} {j : Job}
    (h : live id kind (JobTable.orphanRow now staleBefore j) = true) : live id kind j = true := by
  rcases JobTable.orphanRow_cases now staleBefore j with hsame | ⟨hstatus, hrow⟩
  · rw [hsame] at h
    exact h
  · rw [hrow] at h
    refine live_of_kept h rfl rfl fun _ => ?_
    rw [hstatus]
    rfl

theorem claim_inFlight_le (t : JobTable) (now staleBefore : Time) (kinds : List String) :
    (t.claim now staleBefore kinds).2.inFlight id kind ≤ t.inFlight id kind := by
  rcases JobTable.claim_cases t now staleBefore kinds with ⟨-, hrows⟩ | ⟨j, hj, hstatus, -, hrows⟩
  · exact inFlight_map_le hrows fun _ _ => live_orphanRow
  · refine inFlight_map_le hrows fun j' hj' h => ?_
    split_ifs at h with hid
    · -- the claimed row was queued or held under a stale stamp
      rw [t.eq_of_key hj' hj hid] at h ⊢
      refine live_of_kept h rfl rfl fun _ => ?_
      rcases hstatus with hstatus | hstatus <;> rw [hstatus] <;> rfl
    · exact live_orphanRow h

theorem finish_inFlight_le (t : JobTable) (now : Time) (k : String) (status : JobStatus)
    (result : Json) (error : Option String) (fence : Option Time) :
    (t.finish now k status result error fence).2.inFlight id kind ≤ t.inFlight id kind := by
  refine inFlight_map_le rfl fun j _ h => ?_
  split_ifs at h with hfin
  · exact live_of_kept h rfl rfl fun _ => (JobTable.finishable_iff.1 hfin).2.1
  · exact h

/-- An appended job adds itself, if it is one of the schedule. -/
theorem create_inFlight_le (id : String) (kind : JobKind) (t : JobTable) (j : Job) :
    (t.create j).inFlight id kind ≤ t.inFlight id kind + (produced id kind j).toNat := by
  rcases JobTable.create_rows t j with hsame | ⟨-, hrows⟩
  · rw [hsame]
    exact Nat.le_add_right _ _
  · unfold JobTable.inFlight
    rw [hrows, List.countP_append, List.countP_singleton]
    refine Nat.add_le_add_left ?_ _
    unfold live
    cases produced id kind j <;> simp
    split <;> omega

end

/-- A job enqueued at another door than the sweep's carries no schedule's stamp. -/
def QueueOp.Unstamped : QueueOp → Prop
  | .enqueue _ _ _ payload => payload.getStr SCHEDULE_ID_KEY = none
  | _ => True

/-- What happens to the queue besides the sweep adds nothing to the jobs of a schedule in flight. -/
theorem QueueOp.apply_inFlight_le (id : String) (kind : JobKind) {op : QueueOp} (t : JobTable)
    (now : Time) (h : op.Unstamped) :
    (op.apply now t).inFlight id kind ≤ t.inFlight id kind := by
  cases op with
  | enqueue k jobType project payload =>
    have hother : produced id kind (.enqueued k jobType project payload now) = false := by
      simp only [produced, Job.enqueued, show payload.getStr SCHEDULE_ID_KEY = none from h]
      rfl
    have hle := create_inFlight_le id kind t (.enqueued k jobType project payload now)
    rw [hother] at hle
    exact hle
  | cancel project k => exact inFlight_map_le rfl fun _ _ => live_cancelRow
  | claim staleBefore kinds => exact claim_inFlight_le t now staleBefore kinds
  | progress k text =>
    refine inFlight_map_le rfl fun j _ h => ?_
    split_ifs at h <;> exact h
  | renew k fence =>
    refine inFlight_map_le rfl fun j _ h => ?_
    split_ifs at h <;> exact h
  | finish k status result error fence =>
    exact finish_inFlight_le t now k status result error fence

/-! ## The sweep -/

theorem JobKind.asStr_injective : ∀ a b : JobKind, a.asStr = b.asStr → a = b := by
  intro a b
  cases a <;> cases b <;> decide

/-- The stamp names the schedule it is of. -/
theorem stampedPayload_getStr (s : Schedule) :
    s.stampedPayload.getStr SCHEDULE_ID_KEY = some s.id := by
  unfold stampedPayload Json.getStr
  split
  · simp [Json.get, Json.lookup_insertKey_self, Json.asStr]
  · simp [Json.get, Json.lookup, Json.asStr]

/-- The kind whose running jobs the firing is about to look at. -/
def FirePc.looksRunning : FirePc → Option JobKind
  | .listRunning kind => some kind
  | _ => none

namespace SweepWorld

variable {validatePayload : JobKind → Json → Except String Unit} {w w' : SweepWorld}
  {l : Time × SweepOp}

/-- At most one job of each schedule is in flight, and none when the sweep is about to enqueue. -/
structure Single (w : SweepWorld) : Prop where
  one : ∀ id kind, w.jobs.inFlight id kind ≤ 1
  free : ∀ f ∈ w.sweeper.firing, ∀ kind, f.pc = .create kind →
    w.jobs.inFlight f.read.row.id kind = 0

/-- The page of running jobs that the sweep is about to read shows every job of the schedule in
flight: none is being cancelled, none is queued, and none is beyond the page.  Jobs enqueued at
another door carry no stamp. -/
def LooksComplete (w : SweepWorld) (l : Time × SweepOp) : Prop :=
  match l.2 with
  | .sweep _ => ∀ f ∈ w.sweeper.firing, ∀ kind ∈ f.pc.looksRunning,
      ∀ j ∈ w.jobs.rows, live f.read.row.id kind j = true →
        j.id ∈ (w.jobs.list none (some .running) IN_FLIGHT_PAGE).map Job.id
  | .queue op => op.Unstamped
  | .edit _ => True

theorem init_single : Single init where
  one := fun _ _ => Nat.zero_le _
  free := fun _ hf => absurd hf (Option.not_mem_none _)

/-- A page that shows every job of the schedule in flight, and shows none, means there is none. -/
theorem inFlight_of_not_shows {f : Firing} {kind : JobKind}
    (hshows : shows w.jobs .running f.read.row kind = false)
    (hpage : ∀ j ∈ w.jobs.rows, live f.read.row.id kind j = true →
      j.id ∈ (w.jobs.list none (some .running) IN_FLIGHT_PAGE).map Job.id) :
    w.jobs.inFlight f.read.row.id kind = 0 := by
  unfold JobTable.inFlight
  rw [List.countP_eq_zero]
  intro j hj hlive
  rcases List.mem_map.1 (hpage j hj hlive) with ⟨j', hj', hid⟩
  rw [w.jobs.eq_of_key (JobTable.mem_of_mem_list hj') hj hid] at hj'
  have hnone := List.any_eq_false.1 hshows j hj'
  rw [live, Bool.and_eq_true] at hlive
  exact hnone hlive.1

theorem fire_single {now : Time} {newId : String} {f : Firing} (hfiring : w.sweeper.firing = some f)
    (hpage : ∀ kind ∈ f.pc.looksRunning, ∀ j ∈ w.jobs.rows,
      live f.read.row.id kind j = true →
        j.id ∈ (w.jobs.list none (some .running) IN_FLIGHT_PAGE).map Job.id)
    (h : Single w) : Single (w.fire validatePayload now newId f) := by
  unfold fire
  split
  · rename_i kind hpc
    refine ⟨h.one, fun g hg kind' hcreate => ?_⟩
    rw [← Option.some.inj hg] at hcreate
    split at hcreate <;> cases hcreate
  · rename_i kind hpc
    refine ⟨h.one, fun g hg kind' hcreate => ?_⟩
    rw [← Option.some.inj hg] at hcreate ⊢
    split at hcreate
    · cases hcreate
    · rename_i hshows
      have hkind : kind = kind' := by
        injection hcreate
      rw [← hkind]
      exact inFlight_of_not_shows (Bool.not_eq_true _ ▸ hshows) (hpage kind (by rw [hpc]; rfl))
  · rename_i kind hpc
    split
    · -- the enqueue: the schedule had no job of this kind in flight
      refine ⟨fun id kind' => ?_, fun g hg kind' hcreate => ?_⟩
      · have hle := create_inFlight_le id kind' w.jobs (.enqueued newId kind.asStr
          (some f.read.row.projectId) f.read.row.stampedPayload now)
        refine le_trans hle ?_
        by_cases hprod : produced id kind' (.enqueued newId kind.asStr
          (some f.read.row.projectId) f.read.row.stampedPayload now) = true
        · have hboth := hprod
          simp only [produced, Job.enqueued, stampedPayload_getStr, Bool.and_eq_true, beq_iff_eq,
            Option.some.injEq] at hboth
          have hkind := JobKind.asStr_injective _ _ hboth.2
          have hzero := h.free f hfiring kind hpc
          rw [hprod, ← hboth.1, ← hkind, hzero]
          rfl
        · rw [Bool.not_eq_true] at hprod
          rw [hprod]
          exact h.one id kind'
      · rw [← Option.some.inj hg] at hcreate
        cases hcreate
    · exact ⟨h.one, fun _ hg => absurd hg (Option.not_mem_none _)⟩
  · exact ⟨h.one, fun _ hg => absurd hg (Option.not_mem_none _)⟩

theorem begin_single {now : Time} {x : Snapshot Schedule} {rest : List (Snapshot Schedule)}
    (h : Single w) : Single { w with sweeper := w.sweeper.begin now x rest } := by
  unfold Sweeper.begin
  split
  · exact ⟨h.one, h.free⟩
  · refine ⟨h.one, fun f hf kind hcreate => ?_⟩
    rw [← Option.some.inj hf] at hcreate
    simp only at hcreate
    split at hcreate <;> cases hcreate

theorem next_single {now : Time} {newId : String} (hpage : LooksComplete w (now, .sweep newId))
    (h : Single w) : Single (w.next validatePayload now newId) := by
  unfold next
  split
  · exact h
  · split
    · rename_i f hfiring
      exact fire_single hfiring (hpage f hfiring) h
    · exact begin_single h
    · exact ⟨h.one, h.free⟩

theorem step_single (hstep : Step validatePayload w l w') (hcond : LooksComplete w l)
    (h : Single w) : Single w' := by
  rcases l with ⟨now, op⟩
  rw [show w' = w.exec validatePayload (now, op) from hstep]
  cases op with
  | edit e => exact ⟨h.one, h.free⟩
  | queue op =>
    refine ⟨fun id kind => le_trans (QueueOp.apply_inFlight_le id kind w.jobs now hcond) (h.one id kind),
      fun f hf kind hcreate => ?_⟩
    have hzero := h.free f hf kind hcreate
    have hle := QueueOp.apply_inFlight_le f.read.row.id kind w.jobs now hcond
    exact Nat.le_zero.1 (hzero ▸ hle)
  | sweep newId => exact next_single hcond h

end SweepWorld

/-- **Work never stacks**: at most one job of a schedule is in flight, in every run in which the page
of running jobs that the sweep reads shows every job of the schedule that is. -/
theorem never_stacked {validatePayload : JobKind → Json → Except String Unit}
    {ls : List (Time × SweepOp)} {w : SweepWorld}
    (hrun : Sys.Run (Sys.Restrict (SweepWorld.Step validatePayload) SweepWorld.LooksComplete)
      SweepWorld.init ls w) (id : String) (kind : JobKind) :
    (w.jobs.rows.filter fun j => produced id kind j && !j.status.isTerminal).length ≤ 1 := by
  have hsingle := hrun.invariant SweepWorld.init_single fun _ _ _ hs hi =>
    SweepWorld.step_single hs.1 hs.2 hi
  rw [← List.countP_eq_length_filter]
  exact hsingle.one id kind

instance (op : QueueOp) : Decidable op.Unstamped := by
  cases op <;> unfold QueueOp.Unstamped <;> infer_instance

instance (w : SweepWorld) (l : Time × SweepOp) : Decidable (w.LooksComplete l) := by
  rcases l with ⟨now, op⟩
  cases op <;> unfold SweepWorld.LooksComplete <;> infer_instance

/-- One firing, and a second look while its job is running. -/
theorem never_stacked_sample : ∃ w : SweepWorld, w.jobs.rows.length = 1 ∧
    (w.jobs.rows.filter fun j =>
      produced "sch-1" .benchRun j && !j.status.isTerminal).length ≤ 1 := by
  have hrun := Sys.Run.of_enabled
    (Sys.Restrict (SweepWorld.Step fun _ _ => .ok ()) SweepWorld.LooksComplete)
    (SweepWorld.exec fun _ _ => .ok ()) SweepWorld.LooksComplete (fun _ _ h => ⟨rfl, h⟩)
    SweepWorld.init
    [(0, .edit (.create .sample)), (1, .sweep "j1"), (1, .sweep "j1"), (1, .sweep "j1"),
      (1, .sweep "j1"), (1, .sweep "j1"), (1, .sweep "j1"), (2, .queue (.claim 0 [])),
      (7200000000000, .sweep "j2"), (7200000000000, .sweep "j2"),
      (7200000000000, .sweep "j2"), (7200000000000, .sweep "j2")] (by decide +kernel)
  exact ⟨_, by decide +kernel, never_stacked hrun "sch-1" .benchRun⟩

/-- The job of a first firing is claimed and then asked to stop; while its worker winds down, the
sweep finds no job of the schedule queued or running, and enqueues a second. -/
theorem stacked_while_cancelling :
    ∃ ls w, Sys.Run (SweepWorld.Step fun _ _ => .ok ()) SweepWorld.init ls w ∧
      (w.jobs.rows.filter fun j =>
        produced "sch-1" .benchRun j && !j.status.isTerminal).length = 2 := by
  have hrun := SweepWorld.run_foldl (fun _ _ => .ok ()) SweepWorld.init
    [(0, .edit (.create .sample)), (1, .sweep "j1"), (1, .sweep "j1"), (1, .sweep "j1"),
      (1, .sweep "j1"), (1, .sweep "j1"), (1, .sweep "j1"), (2, .queue (.claim 0 [])),
      (3, .queue (.cancel none "j1")), (7200000000000, .sweep "j2"), (7200000000000, .sweep "j2"),
      (7200000000000, .sweep "j2"), (7200000000000, .sweep "j2"), (7200000000000, .sweep "j2")]
  exact ⟨_, _, hrun, by decide +kernel⟩

end LightTrack
