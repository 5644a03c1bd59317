import LightTrack.Core.Clock
import LightTrack.Jobs.Queue
import LightTrack.Lib.Replace
import LightTrack.Lib.Run

/-! # The sweep of schedules

A schedule is a row that names recurring work.  The sweep reads the schedules that are due and fires
each: it looks for a job of the schedule in flight, enqueues one if it finds none, and writes the
schedule back.  Every call of the store is one step; operators edit schedules and workers move jobs
between any two of them.

* `Sweeper.next` : the next step of the sweep,
* `SweepWorld.Step` : the sweep, the operators and the workers in any order,
* `schedules_agree` : what the sweep keeps of an operator's edits.
-/

namespace LightTrack

/-! ## Schedules -/

/-- `MIN_INTERVAL_SECS`. -/
def MIN_INTERVAL_SECS : ℕ := 60

inductive JobKind
  | benchRun
  | scoreEvents
  | scoreTraces
  | datasetSample
  | calibrate
  | contribute
deriving DecidableEq, Repr

namespace JobKind

def ALL : List JobKind :=
  [.benchRun, .scoreEvents, .scoreTraces, .datasetSample, .calibrate, .contribute]

def asStr : JobKind → String
  | benchRun => "bench_run"
  | scoreEvents => "score_events"
  | scoreTraces => "score_traces"
  | datasetSample => "dataset_sample"
  | calibrate => "calibrate"
  | contribute => "contribute"

def fromWire (s : String) : Option JobKind := ALL.find? fun k => k.asStr == s

end JobKind

/-- One recurring workload. -/
structure Schedule where
  id : String
  projectId : String
  kind : String
  payload : Json
  intervalSecs : ℕ
  nextDue : Time
  lastJobId : Option String
  enabled : Bool
  createdAt : Time

namespace Schedule

/-- The kind this schedule enqueues, if this build knows it. -/
def jobKind (s : Schedule) : Option JobKind := JobKind.fromWire s.kind

/-- Where `next_due` lands after a firing at `now`. -/
def advanceFrom (s : Schedule) (now : Time) : Except Overflow Time :=
  Time.addSeconds now (max s.intervalSecs MIN_INTERVAL_SECS : ℕ)

/-- `SCHEDULE_ID_KEY`. -/
def SCHEDULE_ID_KEY : String := "schedule_id"

/-- The payload of a job the sweep enqueues: the schedule's, stamped with the schedule's id. -/
def stampedPayload (s : Schedule) : Json :=
  match s.payload with
  | .obj fields => .obj (Json.insertKey SCHEDULE_ID_KEY (.str s.id) fields)
  | _ => .obj [(SCHEDULE_ID_KEY, .str s.id)]

/-- Whether a job carries the stamp of a schedule and its kind. -/
def produced (id : String) (kind : JobKind) (j : Job) : Bool :=
  j.payload.getStr SCHEDULE_ID_KEY == some id && j.jobType == kind.asStr

/-- Everything but the two fields that the sweep owns. -/
def operatorPart (s : Schedule) : Schedule := { s with nextDue := 0, lastJobId := none }

end Schedule

/-- The schedules, by id. -/
abbrev ScheduleTable := Keyed Schedule.id

namespace ScheduleTable

/-- `create`: a taken id is refused. -/
def create (t : ScheduleTable) (s : Schedule) : ScheduleTable :=
  if hid : s.id ∈ t.rows.map Schedule.id then t else t.append s hid

/-- The row an `update` writes: a full replace of the mutable fields. -/
def updateRow (project : Option String) (s r : Schedule) : Schedule :=
  if r.id = s.id ∧ project.all (fun p => r.projectId == p) then
    { r with
      kind := s.kind
      payload := s.payload
      intervalSecs := s.intervalSecs
      nextDue := s.nextDue
      lastJobId := s.lastJobId
      enabled := s.enabled }
  else r

theorem updateRow_id (project : Option String) (s r : Schedule) :
    (updateRow project s r).id = r.id := by
  unfold updateRow
  split_ifs <;> rfl

/-- `update`. -/
def update (t : ScheduleTable) (project : Option String) (s : Schedule) : ScheduleTable :=
  Keyed.update t (updateRow project s) (updateRow_id project s)

/-- `delete`. -/
def delete (t : ScheduleTable) (project : Option String) (id : String) : ScheduleTable :=
  Keyed.delete t fun r => r.id == id && project.all fun p => r.projectId == p

/-- `due`: the enabled schedules whose time has come, the longest overdue first. -/
def due (t : ScheduleTable) (now : Time) : List Schedule :=
  (t.rows.filter fun s => s.enabled && decide (s.nextDue ≤ now)).mergeSort fun a b =>
    decide (a.nextDue ≤ b.nextDue)

theorem mem_of_mem_due {t : ScheduleTable} {now : Time} {s : Schedule} (h : s ∈ t.due now) :
    s ∈ t.rows :=
  (List.mem_filter.1 (List.mem_mergeSort.1 h)).1

end ScheduleTable

/-! ## The program -/

/-- The next store call of a firing. -/
inductive FirePc
  | listQueued (kind : JobKind)
  | listRunning (kind : JobKind)
  | create (kind : JobKind)
  | save
deriving DecidableEq, Repr

/-- One firing: the schedule as it was read, and the row to write back. -/
structure Firing where
  read : Snapshot Schedule
  updated : Schedule
  pc : FirePc

/-- Where the sweep stands; an addition out of range stops it. -/
structure Sweeper where
  due : List (Snapshot Schedule) := []
  firing : Option Firing := none
  stopped : Bool := false

structure SweepWorld where
  schedules : Shared Schedule.id
  jobs : JobTable
  sweeper : Sweeper

/-- What operators do to schedules. -/
inductive ScheduleEdit
  | create (s : Schedule)
  | update (s : Schedule)
  | delete (project : Option String) (id : String)

/-- What happens to the queue besides the sweep. -/
inductive QueueOp
  | enqueue (id jobType : String) (project : Option String) (payload : Json)
  | cancel (project : Option String) (id : String)
  | claim (staleBefore : Time) (kinds : List String)
  | progress (id text : String)
  | renew (id : String) (fence : Time)
  | finish (id : String) (status : JobStatus) (result : Json) (error : Option String)
      (fence : Option Time)

inductive SweepOp
  | edit (e : ScheduleEdit)
  | queue (op : QueueOp)
  /-- The next step of the sweep, with the id it would mint. -/
  | sweep (newId : String)

/-- The effect of an operation on the queue. -/
def QueueOp.apply (now : Time) (t : JobTable) : QueueOp → JobTable
  | .enqueue id jobType project payload => t.create (.enqueued id jobType project payload now)
  | .cancel project id => (t.cancel now project id).2
  | .claim staleBefore kinds => (t.claim now staleBefore kinds).2
  | .progress id text => t.updateProgress now id text
  | .renew id fence => (t.renewLease now id fence).2
  | .finish id status result error fence => (t.finish now id status result error fence).2

def ScheduleEdit.id : ScheduleEdit → String
  | .create s => s.id
  | .update s => s.id
  | .delete _ id => id

/-- An operator writes every schedule of the deployment, and deletes in its own scope. -/
def ScheduleEdit.apply (t : ScheduleTable) : ScheduleEdit → ScheduleTable
  | .create s => t.create s
  | .update s => t.update none s
  | .delete project id => t.delete project id

section

variable (validatePayload : JobKind → Json → Except String Unit)

/-- The most jobs one look at the queue returns. -/
def IN_FLIGHT_PAGE : ℕ := 1000

/-- Whether one page of jobs shows one of the schedule. -/
def shows (jobs : JobTable) (status : JobStatus) (s : Schedule) (kind : JobKind) : Bool :=
  (jobs.list none (some status) IN_FLIGHT_PAGE).any (Schedule.produced s.id kind)

/-- `fire` up to its first store call. -/
def Sweeper.begin (sw : Sweeper) (now : Time) (x : Snapshot Schedule)
    (rest : List (Snapshot Schedule)) : Sweeper :=
  match x.row.advanceFrom now with
  | .error _ => { sw with stopped := true }
  | .ok nextDue =>
    { sw with
      due := rest
      firing := some
        { read := x
          updated := { x.row with nextDue := nextDue }
          pc := match x.row.jobKind with
            | none => .save
            | some kind => .listQueued kind } }

/-- The store call a firing stands at. -/
def SweepWorld.fire (w : SweepWorld) (now : Time) (newId : String) (f : Firing) : SweepWorld :=
  let goto (f : Option Firing) : Sweeper := { w.sweeper with firing := f }
  match f.pc with
  | .listQueued kind =>
    { w with
      sweeper := goto (some { f with
        pc := if shows w.jobs .queued f.read.row kind then .save else .listRunning kind }) }
  | .listRunning kind =>
    { w with
      sweeper := goto (some { f with
        pc := if shows w.jobs .running f.read.row kind then .save else .create kind }) }
  | .create kind =>
    -- an invalid payload or a taken id ends the firing with an error, and nothing is saved
    if (validatePayload kind f.read.row.stampedPayload).isOk ∧ newId ∉ w.jobs.rows.map Job.id then
      { w with
        jobs := w.jobs.create
          (.enqueued newId kind.asStr (some f.read.row.projectId) f.read.row.stampedPayload now)
        sweeper := goto (some { f with
          updated := { f.updated with lastJobId := some newId }, pc := .save }) }
    else { w with sweeper := goto none }
  | .save =>
    { w with
      schedules := w.schedules.write (ScheduleTable.updateRow none f.updated)
        (ScheduleTable.updateRow_id none f.updated)
      sweeper := goto none }

/-- The next step of the sweep. -/
def SweepWorld.next (w : SweepWorld) (now : Time) (newId : String) : SweepWorld :=
  if w.sweeper.stopped then w
  else
    match w.sweeper.firing, w.sweeper.due with
    | some f, _ => w.fire validatePayload now newId f
    | none, x :: rest => { w with sweeper := w.sweeper.begin now x rest }
    | none, [] =>
      { w with sweeper := { w.sweeper with
          due := w.schedules.snapshots (ScheduleTable.due w.schedules.table now) } }

/-- One step at an instant. -/
def SweepWorld.exec (w : SweepWorld) (l : Time × SweepOp) : SweepWorld :=
  match l.2 with
  | .edit e => { w with schedules := w.schedules.edit e.id (e.apply w.schedules.table) }
  | .queue op => { w with jobs := op.apply l.1 w.jobs }
  | .sweep newId => w.next validatePayload l.1 newId

/-- No schedule, no job, and the sweep about to start. -/
def SweepWorld.init : SweepWorld := ⟨Shared.empty, Keyed.empty, {}⟩

def SweepWorld.Step (w : SweepWorld) (l : Time × SweepOp) (w' : SweepWorld) : Prop :=
  w' = w.exec validatePayload l

/-- Any labels are a run. -/
theorem SweepWorld.run_foldl (w : SweepWorld) (ls : List (Time × SweepOp)) :
    Sys.Run (SweepWorld.Step validatePayload) w ls
      (ls.foldl (SweepWorld.exec validatePayload) w) := by
  induction ls generalizing w with
  | nil => exact .nil
  | cons l ls ih => exact (Sys.Run.single (l := l) rfl).append (ih _)

end

/-! ## What the sweep keeps of an operator's edits -/

namespace ScheduleEdit

/-- An edit writes the row under its own id only. -/
theorem apply_others (t : ScheduleTable) (e : ScheduleEdit) (k : String) (hk : k ≠ e.id) :
    (e.apply t).find k = t.find k := by
  cases e with
  | create s =>
    simp only [apply, ScheduleTable.create]
    split
    · rfl
    · exact Keyed.find_append (Ne.symm hk)
  | update s =>
    simp only [apply, ScheduleTable.update]
    refine Keyed.find_update_of_ne fun r hr => ?_
    exact if_neg fun h => hk (hr ▸ h.1)
  | delete project id =>
    refine Keyed.find_delete fun r hr => ?_
    rw [Bool.and_eq_true, beq_iff_eq] at hr
    exact fun he => hk (he ▸ hr.1)

end ScheduleEdit

namespace SweepWorld

variable {validatePayload : JobKind → Json → Except String Unit} {w w' : SweepWorld}
  {l : Time × SweepOp}

/-- A firing whose schedule was read validly, and which would write the fields of the operator back
as it read them. -/
structure FiringOk (schedules : Shared Schedule.id) (f : Firing) : Prop where
  read : schedules.Valid Schedule.operatorPart f.read
  kept : f.updated.operatorPart = f.read.row.operatorPart

/-- The rows show the operators' last edits, and what the sweep holds was shown when it was read. -/
structure Kept (w : SweepWorld) : Prop where
  agrees : w.schedules.Agrees Schedule.operatorPart
  due : ∀ x ∈ w.sweeper.due, w.schedules.Valid Schedule.operatorPart x
  firing : ∀ f ∈ w.sweeper.firing, FiringOk w.schedules f

/-- The sweep is about to save a row that no operator has written since the sweep read it; other
steps are free. -/
def SavesCurrent (w : SweepWorld) (l : Time × SweepOp) : Prop :=
  match l.2 with
  | .sweep _ => ∀ f ∈ w.sweeper.firing, f.pc = .save → w.schedules.Current f.read
  | _ => True

instance (w : SweepWorld) (l : Time × SweepOp) : Decidable (SavesCurrent w l) := by
  unfold SavesCurrent
  split <;> infer_instance

theorem init_kept : Kept init where
  agrees := Shared.empty_agrees
  due := fun _ hx => absurd hx List.not_mem_nil
  firing := fun _ hf => absurd hf (Option.not_mem_none _)

/-- A save of a current snapshot writes the operator's part of every row as it is. -/
theorem save_view {f : Firing} (hf : FiringOk w.schedules f) (hcur : w.schedules.Current f.read) :
    ∀ r ∈ w.schedules.table.rows,
      (ScheduleTable.updateRow none f.updated r).operatorPart = r.operatorPart := by
  intro r hr
  unfold ScheduleTable.updateRow
  split_ifs with hid
  · have hkept := hf.kept
    have hid' : f.updated.id = f.read.row.id := by
      have := congrArg Schedule.id hkept
      exact this
    have hview := hf.read.view_eq hcur hr (hid.1.trans hid')
    rw [← hkept] at hview
    simp only [Schedule.operatorPart, Schedule.mk.injEq] at hview ⊢
    simp only [hview, and_self]
  · rfl

/-- A store call of a firing; only the save touches the schedules. -/
theorem fire_kept {now : Time} {newId : String} {f : Firing} (hf : FiringOk w.schedules f)
    (hcur : f.pc = .save → w.schedules.Current f.read) (h : Kept w) :
    Kept (w.fire validatePayload now newId f) := by
  unfold fire
  split
  · refine ⟨h.agrees, h.due, fun g hg => ?_⟩
    rw [← Option.some.inj hg]
    exact ⟨hf.read, hf.kept⟩
  · refine ⟨h.agrees, h.due, fun g hg => ?_⟩
    rw [← Option.some.inj hg]
    exact ⟨hf.read, hf.kept⟩
  · split
    · refine ⟨h.agrees, h.due, fun g hg => ?_⟩
      rw [← Option.some.inj hg]
      exact ⟨hf.read, hf.kept⟩
    · exact ⟨h.agrees, h.due, fun _ hg => absurd hg (Option.not_mem_none _)⟩
  · -- the save: the table still shows what the sweep read
    rename_i hpc
    have hview := save_view hf (hcur hpc)
    exact ⟨h.agrees.write hview, fun x hx => (h.due x hx).write hview,
      fun _ hg => absurd hg (Option.not_mem_none _)⟩

theorem begin_kept {now : Time} {x : Snapshot Schedule} {rest : List (Snapshot Schedule)}
    (hx : w.sweeper.due = x :: rest) (h : Kept w) :
    Kept { w with sweeper := w.sweeper.begin now x rest } := by
  have hdue : ∀ y ∈ x :: rest, w.schedules.Valid Schedule.operatorPart y := by
    rw [← hx]
    exact h.due
  unfold Sweeper.begin
  split
  · exact ⟨h.agrees, h.due, fun f hf => h.firing f hf⟩
  · refine ⟨h.agrees, fun y hy => hdue y (List.mem_cons_of_mem x hy), fun f hf => ?_⟩
    rw [← Option.some.inj hf]
    exact ⟨hdue x List.mem_cons_self, rfl⟩

theorem next_kept {now : Time} {newId : String}
    (hcond : ∀ f ∈ w.sweeper.firing, f.pc = .save → w.schedules.Current f.read) (h : Kept w) :
    Kept (w.next validatePayload now newId) := by
  unfold next
  split
  · exact h
  · split
    · rename_i f hfiring
      exact fire_kept (h.firing f hfiring) (hcond f hfiring) h
    · rename_i x rest _ hdue
      exact begin_kept hdue h
    · -- a look at what is due
      refine ⟨h.agrees, ?_, h.firing⟩
      exact Shared.valid_snapshots fun s hs => ScheduleTable.mem_of_mem_due hs

theorem step_kept (hstep : Step validatePayload w l w') (hcond : SavesCurrent w l) (h : Kept w) :
    Kept w' := by
  rcases l with ⟨now, op⟩
  rw [show w' = w.exec validatePayload (now, op) from hstep]
  cases op with
  | edit e =>
    have hothers := ScheduleEdit.apply_others w.schedules.table e
    exact ⟨h.agrees.edit hothers, fun x hx => (h.due x hx).edit hothers,
      fun f hf => ⟨(h.firing f hf).read.edit hothers, (h.firing f hf).kept⟩⟩
  | queue op => exact ⟨h.agrees, h.due, fun f hf => ⟨(h.firing f hf).read, (h.firing f hf).kept⟩⟩
  | sweep newId => exact next_kept hcond h

end SweepWorld

/-- In a run whose saves are of rows no operator has written since the sweep read them, every
schedule shows the operators' last edit of it, in every field but the two the sweep owns. -/
theorem schedules_agree {validatePayload : JobKind → Json → Except String Unit}
    {ls : List (Time × SweepOp)} {w : SweepWorld}
    (hrun : Sys.Run (Sys.Restrict (SweepWorld.Step validatePayload) SweepWorld.SavesCurrent)
      SweepWorld.init ls w) :
    w.schedules.Agrees Schedule.operatorPart :=
  (hrun.invariant SweepWorld.init_kept fun _ _ _ hs hi =>
    SweepWorld.step_kept hs.1 hs.2 hi).agrees

/-- A benchmark run every hour, first due at the epoch. -/
def Schedule.sample : Schedule where
  id := "sch-1"
  projectId := "p1"
  kind := "bench_run"
  payload := .obj [("benchmark_id", .str "b1")]
  intervalSecs := 3600
  nextDue := 0
  lastJobId := none
  enabled := true
  createdAt := 0

end LightTrack
