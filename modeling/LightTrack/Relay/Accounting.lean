import LightTrack.Relay.Fencing

/-! # Budgets and stuck tasks

`RelayTask.RowStep` lists every rewrite a call can make of a row, guards included.  Two families
of facts follow from it.

* `relay_accounting_run` : a task was leased once for each failure, each lost device and the lease
  it is under, and neither budget is overrun,
* `relay_unstuck_run` : after the sweep and a lease, the tasks that only a report can still move
  are those that were asked to stop and whose lease ran out,
* `cancelling_hangs` : such a task, which nothing ends.
-/

namespace LightTrack

open RelayTable

/-! ## What a call can do to a row -/

/-- Every rewrite one call at `now` can make of a row. -/
inductive RelayTask.RowStep (now : Time) (r : RelayTask) : RelayTask → Prop
  | same : RowStep now r r
  | leased (device : String) (capabilities : List String) (leaseSecs : Int) :
      leasable now capabilities r = true →
        RowStep now r (leaseRow device now (deadlineAt now leaseSecs) r)
  | swept : sweepable now r = true → RowStep now r (sweepRow now r)
  | renewed (leaseSecs : Int) : r.status.isLiveLease = true →
      RowStep now r { r with leaseDeadline := some (deadlineAt now leaseSecs), updatedAt := now }
  | progressed (progress : String) : r.status.isLiveLease = true →
      RowStep now r { r with progress := some progress, updatedAt := now }
  | settled (outcome : RelayOutcome) : r.status.isLiveLease = true →
      RowStep now r (settleRow now outcome r)
  | cancelled (project : Option String) (id : String) : RowStep now r (cancelRow now project id r)

namespace RelayTable

/-- What a lease picks was leasable. -/
theorem leasable_of_mem_leaseIds {t : RelayTable} {now : Time} {capabilities : List String}
    {max : ℕ} {r : RelayTask} (hr : r ∈ t.tasks) (h : r.id ∈ t.leaseIds now capabilities max) :
    leasable now capabilities r = true := by
  rcases List.mem_map.1 h with ⟨r', hr', hid⟩
  have hmem := List.mem_mergeSort.1 (List.mem_of_mem_take hr')
  rcases List.mem_filter.1 hmem with ⟨hmem, hleasable⟩
  rw [← t.eq_of_id hmem hr hid]
  exact hleasable

/-- A lease for at least as many tasks as there are picks all that are leasable. -/
theorem mem_leaseIds_of_leasable {t : RelayTable} {now : Time} {capabilities : List String}
    {r : RelayTask} (hr : r ∈ t.tasks) (h : leasable now capabilities r = true) :
    r.id ∈ t.leaseIds now capabilities t.tasks.length := by
  refine List.mem_map_of_mem ?_
  rw [List.take_of_length_le]
  · exact List.mem_mergeSort.2 (List.mem_filter.2 ⟨hr, h⟩)
  · rw [List.length_mergeSort]
    exact List.length_filter_le _ _

end RelayTable

namespace RelayQueue

/-- Every row after a call was just enqueued, or is a rewrite of a row before it. -/
theorem exec_rows (now : Time) (op : RelayOp) (q : RelayQueue) {r' : RelayTask}
    (hr' : r' ∈ (exec now op q).state.table.tasks) :
    (∃ req, op = .enqueue req ∧ r' = req.task now) ∨
      ∃ r ∈ q.table.tasks, r.RowStep now r' := by
  cases op with
  | enqueue req =>
    simp only [exec, RelayTable.create] at hr'
    split_ifs at hr'
    · exact .inr ⟨r', hr', .same⟩
    · exact .inr ⟨r', hr', .same⟩
    · rcases List.mem_append.1 hr' with hr' | hr'
      · exact .inr ⟨r', hr', .same⟩
      · exact .inl ⟨req, rfl, List.mem_singleton.1 hr'⟩
  | lease device capabilities leaseSecs max =>
    rcases List.mem_map.1 hr' with ⟨r, hr, rfl⟩
    refine .inr ⟨r, hr, ?_⟩
    split_ifs with hin
    · exact .leased device capabilities leaseSecs (leasable_of_mem_leaseIds hr hin)
    · exact .same
  | sweepDead =>
    rcases List.mem_map.1 hr' with ⟨r, hr, rfl⟩
    refine .inr ⟨r, hr, ?_⟩
    by_cases hswept : sweepable now r = true
    · exact .swept hswept
    · rw [sweepRow, if_neg hswept]
      exact .same
  | renew id fence leaseSecs =>
    rcases List.mem_map.1 hr' with ⟨r, hr, rfl⟩
    refine .inr ⟨r, hr, ?_⟩
    split_ifs with hholds
    · exact .renewed leaseSecs (holds_iff.1 hholds).2.2
    · exact .same
  | updateProgress id fence progress =>
    rcases List.mem_map.1 hr' with ⟨r, hr, rfl⟩
    refine .inr ⟨r, hr, ?_⟩
    split_ifs with hholds
    · exact .progressed progress (holds_iff.1 hholds).2.2
    · exact .same
  | settle id fence outcome =>
    replace hr' : r' ∈ (q.table.settle now id fence outcome).2.tasks := hr'
    rcases settle_tasks q.table now id fence outcome with hsame | ⟨task, hmem, hid, hlive, -, hmap⟩
    · rw [hsame] at hr'
      exact .inr ⟨r', hr', .same⟩
    · rw [hmap] at hr'
      rcases List.mem_map.1 hr' with ⟨r, hr, rfl⟩
      refine .inr ⟨r, hr, ?_⟩
      split_ifs with hrid
      · -- the settled row is the live one
        have heq : r = task := q.table.eq_of_id hr hmem (hrid.trans hid.symm)
        exact .settled outcome (heq ▸ hlive)
      · exact .same
  | cancel project id =>
    rcases List.mem_map.1 hr' with ⟨r, hr, rfl⟩
    exact .inr ⟨r, hr, .cancelled project id⟩

end RelayQueue

/-! ## The budgets -/

/-- The attempts of a task are accounted for, and its budgets are kept. -/
structure RelayTask.Accounted (r : RelayTask) : Prop where
  attempts : r.status.isTerminal = false →
    r.attempts = r.failures + r.staleReclaims + if r.status.isLiveLease then 1 else 0
  reclaims : r.staleReclaims ≤ RELAY_MAX_STALE_RECLAIMS
  failures : r.status ≠ .dead → r.failures < r.maxAttempts

namespace RelayTask

variable {now : Time} {r r' : RelayTask}

theorem accounted_task (req : EnqueueReq) (now : Time) : (req.task now).Accounted where
  attempts := fun _ => rfl
  reclaims := Nat.zero_le _
  failures := fun _ => lt_of_lt_of_le Nat.zero_lt_one (le_max_right _ 1)

/-- A lease spends one attempt, and a lost device too where it takes over a lease. -/
theorem Accounted.leaseRow (h : r.Accounted) {capabilities : List String}
    (hleasable : leasable now capabilities r = true) (device : String) (deadline : Time) :
    (RelayTable.leaseRow device now deadline r).Accounted := by
  simp only [leasable, Bool.and_eq_true, Bool.or_eq_true, beq_iff_eq, decide_eq_true_eq]
    at hleasable
  rcases hleasable.1 with ⟨hqueued, -⟩ | ⟨⟨⟨hleased, -⟩, -⟩, hbudget⟩
  · have hattempts := h.attempts (by rw [hqueued]; rfl)
    rw [hqueued] at hattempts
    constructor
    · intro _
      simp only [RelayTable.leaseRow, hqueued, hattempts]
      rfl
    · simpa [RelayTable.leaseRow, hqueued] using h.reclaims
    · intro _
      exact h.failures (by rw [hqueued]; decide)
  · -- the lease that ran out is counted as a lost device
    have hattempts := h.attempts (by rw [hleased]; rfl)
    rw [hleased] at hattempts
    constructor
    · intro _
      simp only [RelayTable.leaseRow, hleased, hattempts]
      rfl
    · simp only [RelayTable.leaseRow, hleased, if_true]
      exact hbudget
    · intro _
      exact h.failures (by rw [hleased]; decide)

/-- A settle ends the lease: a failure is counted, a deferral hands its attempt back. -/
theorem Accounted.settleRow (h : r.Accounted) (hlive : r.status.isLiveLease = true)
    (outcome : RelayOutcome) : (RelayTable.settleRow now outcome r).Accounted := by
  rcases stopped_or_terminal_of_live hlive with hleased | hcancelling
  · have hattempts := h.attempts (by rw [hleased]; rfl)
    have hfailures := h.failures (by rw [hleased]; decide)
    have hreclaims := h.reclaims
    rw [hleased] at hattempts
    simp only [RelayStatus.isLiveLease, if_true] at hattempts
    cases outcome with
    | succeeded result =>
      constructor
      · intro hterminal
        simp [RelayTable.settleRow, hleased, RelayStatus.isTerminal] at hterminal
      · exact hreclaims
      · intro _
        exact hfailures
    | failed err =>
      by_cases hspent : r.maxAttempts ≤ r.failures + 1
      · constructor
        · intro hterminal
          simp [RelayTable.settleRow, hleased, hspent, RelayStatus.isTerminal] at hterminal
        · exact hreclaims
        · intro hdead
          simp [RelayTable.settleRow, hleased, hspent] at hdead
      · constructor
        · intro _
          simp only [RelayTable.settleRow, hleased]
          simp [hspent, RelayStatus.isLiveLease]
          omega
        · exact hreclaims
        · intro _
          simp only [RelayTable.settleRow, hleased]
          simp
          omega
    | deferred retryAfterSecs reason =>
      constructor
      · intro _
        simp only [RelayTable.settleRow, hleased]
        simp [RelayStatus.isLiveLease]
        omega
      · exact hreclaims
      · intro _
        exact hfailures
  · -- a run that was asked to stop ends, whatever it reports, and spends nothing
    have hfailures := h.failures (by rw [hcancelling]; decide)
    have hterminal : (RelayTable.settleRow now outcome r).status = .cancelled := by
      cases outcome <;> simp [RelayTable.settleRow, hcancelling]
    have hsame : (RelayTable.settleRow now outcome r).failures = r.failures ∧
        (RelayTable.settleRow now outcome r).staleReclaims = r.staleReclaims ∧
        (RelayTable.settleRow now outcome r).maxAttempts = r.maxAttempts := by
      cases outcome <;> simp [RelayTable.settleRow, hcancelling]
    constructor
    · intro hno
      rw [hterminal] at hno
      cases hno
    · rw [hsame.2.1]
      exact h.reclaims
    · intro _
      rw [hsame.1, hsame.2.2]
      exact hfailures

/-- Every rewrite of a row keeps its accounts. -/
theorem Accounted.rowStep (h : r.Accounted) (hstep : r.RowStep now r') : r'.Accounted := by
  cases hstep with
  | same => exact h
  | leased device capabilities leaseSecs hleasable => exact h.leaseRow hleasable device _
  | swept hsweepable =>
    rw [sweepRow, if_pos hsweepable]
    constructor
    · intro hterminal
      cases hterminal
    · exact h.reclaims
    · intro hdead
      exact absurd rfl hdead
  | renewed leaseSecs hlive => exact ⟨h.attempts, h.reclaims, h.failures⟩
  | progressed progress hlive => exact ⟨h.attempts, h.reclaims, h.failures⟩
  | settled outcome hlive => exact h.settleRow hlive outcome
  | cancelled project id =>
    unfold cancelRow
    split
    next hmatch =>
      simp only [Bool.and_eq_true, Bool.or_eq_true, beq_iff_eq] at hmatch
      rcases hmatch.1.2 with hqueued | hleased
      · constructor
        · intro hterminal
          simp [hqueued, RelayStatus.isTerminal] at hterminal
        · exact h.reclaims
        · intro _
          exact h.failures (by rw [hqueued]; decide)
      · -- the lease goes on, so the attempt stays spent
        have hattempts := h.attempts (by rw [hleased]; rfl)
        rw [hleased] at hattempts
        constructor
        · intro _
          simp only [hleased]
          exact hattempts
        · exact h.reclaims
        · intro _
          exact h.failures (by rw [hleased]; decide)
    next => exact h

end RelayTask

namespace RelayQueue

/-- What holds of every enqueued row and is kept by every rewrite of a row holds of every row of a
run that starts with no tasks. -/
theorem rows_run {P : RelayTask → Prop} (hnew : ∀ req now, P (EnqueueReq.task req now))
    (hstep : ∀ now r r', RelayTask.RowStep now r r' → P r → P r')
    {s s' : Sys.Timed Time RelayQueue} {ls : List (Time × RelayOp)}
    (hinit : s.state.table.tasks = []) (hrun : Sys.Run Step s ls s') :
    ∀ r ∈ s'.state.table.tasks, P r := by
  refine hrun.invariant (I := fun a => ∀ r ∈ a.state.table.tasks, P r) ?_ ?_
  · intro r hr
    rw [hinit] at hr
    cases hr
  · rintro a ⟨now, op⟩ b ⟨-, rfl⟩ h r' hr'
    rcases exec_rows now op a.state hr' with ⟨req, -, rfl⟩ | ⟨r, hr, hrow⟩
    · exact hnew req now
    · exact hstep now r r' hrow (h r hr)

/-- **Attempt accounting.** In every state of every run from an empty queue: a task that is not
terminal was leased once for each failure, once for each lost device and once more if it is under
a lease; no more devices were lost on it than allowed; while it is not dead its failures are below
its budget; and a deferral of a task under a lease hands back an attempt that was spent. -/
theorem relay_accounting_run {s s' : Sys.Timed Time RelayQueue} {ls : List (Time × RelayOp)}
    (hinit : s.state.table.tasks = []) (hrun : Sys.Run Step s ls s') :
    ∀ r ∈ s'.state.table.tasks,
      (r.status.isTerminal = false → r.attempts = r.failures + r.staleReclaims +
        if r.status = .leased ∨ r.status = .cancelling then 1 else 0) ∧
      r.staleReclaims ≤ RELAY_MAX_STALE_RECLAIMS ∧
      (r.status ≠ .dead → r.failures < r.maxAttempts) ∧
      (r.status.isLiveLease = true → ∀ now retryAfterSecs reason,
        (settleRow now (.deferred retryAfterSecs reason) r).attempts + 1 = r.attempts) := by
  intro r hr
  have hacc : r.Accounted :=
    rows_run (P := RelayTask.Accounted) RelayTask.accounted_task
      (fun now r r' hstep h => h.rowStep hstep) hinit hrun r hr
  refine ⟨?_, hacc.reclaims, hacc.failures, ?_⟩
  · intro hterminal
    rw [hacc.attempts hterminal]
    cases r.status <;> rfl
  · intro hlive now retryAfterSecs reason
    have hopen : r.status.isTerminal = false := by
      rcases RelayTask.stopped_or_terminal_of_live hlive with h | h
      · rw [h]
        rfl
      · rw [h]
        rfl
    have hattempts := hacc.attempts hopen
    rw [if_pos hlive] at hattempts
    show r.attempts - 1 + 1 = r.attempts
    omega

/-- The first device is lost and the second reports a failure: two leases, one failure, one lost
device. -/
theorem relay_accounting_run_sample :
    let ls := reclaimRun ++
      [(61 * Time.second, .settle "t" (some (60 * Time.second)) (.failed "timeout"))]
    let s' := ls.foldl (fun s l => exec l.1 l.2 s.state) emptyQueue
    ∃ r ∈ s'.state.table.tasks, r.attempts = 2 ∧ r.failures = 1 ∧ r.staleReclaims = 1 ∧
      r.attempts = r.failures + r.staleReclaims := by
  intro ls s'
  have hrun : Sys.Run Step emptyQueue ls s' := by
    refine .snoc (.snoc (.snoc (.single ⟨?_, rfl⟩) ⟨?_, rfl⟩) ⟨?_, rfl⟩) ⟨?_, rfl⟩
    all_goals decide +kernel
  have hrow : ∃ r ∈ s'.state.table.tasks, r.status = .queued ∧ r.attempts = 2 ∧ r.failures = 1 ∧
      r.staleReclaims = 1 := by decide +kernel
  rcases hrow with ⟨r, hr, hqueued, hattempts, hfailures, hreclaims⟩
  refine ⟨r, hr, hattempts, hfailures, hreclaims, ?_⟩
  have hacc := (relay_accounting_run rfl hrun r hr).1 (by rw [hqueued]; rfl)
  rw [hacc, hqueued]
  rfl

/-! ## Stuck tasks -/

/-- Whether a call reports on one task: its holder's writes, and a settle in its holder's name. -/
def reports (id : String) : RelayOp → Bool
  | .renew id' _ _ | .updateProgress id' _ _ | .settle id' _ _ => id' == id
  | _ => false

/-- The lease of a row ran out before `now`. -/
def Expired (now : Time) (r : RelayTask) : Prop := ∃ d, r.leaseDeadline = some d ∧ d < now

/-- A task under a lease that ran out, which no call but a report can move from `now` on. -/
def Stuck (now : Time) (q : RelayQueue) (r : RelayTask) : Prop :=
  r ∈ q.table.tasks ∧ r.status.isLiveLease = true ∧ Expired now r ∧
    ∀ now' op, now ≤ now' → reports r.id op = false → r ∈ (exec now' op q).state.table.tasks

/-- The sweep and a lease, at one instant. -/
def sweepAndLease (now : Time) (device : String) (capabilities : List String) (leaseSecs : Int)
    (max : ℕ) (q : RelayQueue) : RelayQueue :=
  (exec now (.lease device capabilities leaseSecs max) (exec now .sweepDead q).state).state

/-- Only a report moves a task that was asked to stop. -/
theorem stays_of_cancelling {q : RelayQueue} {r : RelayTask} (hr : r ∈ q.table.tasks)
    (hst : r.status = .cancelling) {op : RelayOp} (hop : reports r.id op = false) (now : Time) :
    r ∈ (exec now op q).state.table.tasks := by
  cases op with
  | enqueue req =>
    simp only [exec, RelayTable.create]
    split_ifs
    · exact hr
    · exact hr
    · exact List.mem_append_left _ hr
  | lease device capabilities leaseSecs max =>
    refine List.mem_map.2 ⟨r, hr, if_neg fun hin => ?_⟩
    have hleasable := leasable_of_mem_leaseIds hr hin
    simp [leasable, hst] at hleasable
  | sweepDead =>
    refine List.mem_map.2 ⟨r, hr, ?_⟩
    rw [sweepRow, if_neg (by simp [sweepable, hst])]
  | cancel project id =>
    refine List.mem_map.2 ⟨r, hr, ?_⟩
    rw [cancelRow, if_neg (by simp [hst])]
  | renew id fence leaseSecs =>
    refine List.mem_map.2 ⟨r, hr, if_neg fun hholds => ?_⟩
    simp [reports, (holds_iff.1 hholds).1] at hop
  | updateProgress id fence progress =>
    refine List.mem_map.2 ⟨r, hr, if_neg fun hholds => ?_⟩
    simp [reports, (holds_iff.1 hholds).1] at hop
  | settle id fence outcome =>
    show r ∈ (q.table.settle now id fence outcome).2.tasks
    rcases settle_tasks q.table now id fence outcome with hsame | ⟨task, -, -, -, -, hmap⟩
    · rw [hsame]
      exact hr
    · rw [hmap]
      refine List.mem_map.2 ⟨r, hr, if_neg fun hid => ?_⟩
      simp [reports, hid] at hop

/-- A lease that ran out with both budgets left can be taken over. -/
theorem leaves_of_leasable {q : RelayQueue} {r : RelayTask} (hr : r ∈ q.table.tasks) {now : Time}
    (h : leasable now [] r = true) :
    r ∉ (exec now (.lease "" [] 0 q.table.tasks.length) q).state.table.tasks := by
  intro hmem
  rcases List.mem_map.1 hmem with ⟨r', hr', heq⟩
  split_ifs at heq with hin
  · -- the row that is leased has this row's id, and one attempt more
    have hid : r'.id = r.id := by rw [← heq]; rfl
    have hsame : r' = r := q.table.eq_of_id hr' hr hid
    have hattempts := congrArg RelayTask.attempts heq
    rw [hsame] at hattempts
    exact Nat.succ_ne_self _ hattempts
  · rw [heq] at hin
    exact hin (mem_leaseIds_of_leasable hr h)

/-- What the sweep and a lease leave under a lease that ran out was not leased by them. -/
theorem sweepAndLease_rows {q : RelayQueue} {now : Time} {device : String}
    {capabilities : List String} {leaseSecs : Int} {max : ℕ} {r : RelayTask}
    (hr : r ∈ (sweepAndLease now device capabilities leaseSecs max q).table.tasks)
    (hlive : r.status.isLiveLease = true) (hexpired : Expired now r) :
    r ∈ q.table.tasks ∧ sweepable now r = false := by
  rcases List.mem_map.1 hr with ⟨r₁, hr₁, rfl⟩
  split_ifs at hexpired hlive ⊢ with hin
  · -- a lease just granted has not run out
    rcases hexpired with ⟨d, hd, hlt⟩
    have hdeadline : deadlineAt now leaseSecs = d := Option.some.inj hd
    rw [← hdeadline] at hlt
    have hge : 0 ≤ Max.max leaseSecs 0 * Time.second :=
      Int.mul_nonneg (le_max_right _ _) (by decide)
    exact absurd hlt (not_lt.2 (Int.le_add_of_nonneg_right hge))
  · rcases List.mem_map.1 hr₁ with ⟨r, hr', rfl⟩
    by_cases hswept : sweepable now r = true
    · rw [sweepRow, if_pos hswept] at hlive
      cases hlive
    · rw [sweepRow, if_neg hswept]
      exact ⟨hr', by simpa using hswept⟩

/-- A task asked to stop passes the sweep and a lease unmoved. -/
theorem mem_sweepAndLease {q : RelayQueue} {r : RelayTask} (hr : r ∈ q.table.tasks)
    (hst : r.status = .cancelling) (now : Time) (device : String) (capabilities : List String)
    (leaseSecs : Int) (max : ℕ) :
    r ∈ (sweepAndLease now device capabilities leaseSecs max q).table.tasks :=
  stays_of_cancelling (q := (exec now .sweepDead q).state)
    (stays_of_cancelling hr hst rfl now) hst rfl now

/-- Every task under a lease has a deadline. -/
def HasDeadline (r : RelayTask) : Prop := r.status.isLiveLease = true → r.leaseDeadline.isSome = true

theorem hasDeadline_rowStep {now : Time} {r r' : RelayTask} (hstep : r.RowStep now r')
    (h : HasDeadline r) : HasDeadline r' := by
  cases hstep with
  | same => exact h
  | leased device capabilities leaseSecs hleasable => exact fun _ => rfl
  | swept hsweepable =>
    intro hlive
    rw [sweepRow, if_pos hsweepable] at hlive
    cases hlive
  | renewed leaseSecs hlive => exact fun _ => rfl
  | progressed progress hlive => exact h
  | settled outcome hlive =>
    intro hlive'
    rcases RelayTask.stopped_or_terminal_of_live hlive with hleased | hcancelling
    · cases outcome with
      | failed err =>
        simp only [settleRow, hleased, RelayStatus.isLiveLease] at hlive'
        split_ifs at hlive'
      | _ => simp [settleRow, hleased, RelayStatus.isLiveLease] at hlive'
    · cases outcome <;> simp [settleRow, hcancelling, RelayStatus.isLiveLease] at hlive'
  | cancelled project id =>
    unfold cancelRow
    split
    next hmatch =>
      simp only [Bool.and_eq_true, Bool.or_eq_true, beq_iff_eq] at hmatch
      intro hlive
      rcases hmatch.1.2 with hqueued | hleased
      · simp [hqueued, RelayStatus.isLiveLease] at hlive
      · exact h (by rw [hleased]; rfl)
    next => exact h

/-- No call reports on the task `id`. -/
def Unreported (id : String) (_ : Sys.Timed Time RelayQueue) (l : Time × RelayOp) : Prop :=
  reports id l.2 = false

/-- **Which tasks hang.** In every state of every run from an empty queue every task under a lease
has a deadline.  After the sweep and a lease at `now`, by any device, every task whose lease ran
out can still be moved by a call that is no report, if and only if no task was asked to stop and
left alone past its deadline.  Such a task stays as it is for as long as nobody reports on it. -/
theorem relay_unstuck_run {s s' : Sys.Timed Time RelayQueue} {ls : List (Time × RelayOp)}
    (hinit : s.state.table.tasks = []) (hrun : Sys.Run Step s ls s') :
    (∀ r ∈ s'.state.table.tasks, r.status.isLiveLease = true → r.leaseDeadline.isSome = true) ∧
      (∀ now device capabilities leaseSecs max,
        (∀ r, ¬ Stuck now (sweepAndLease now device capabilities leaseSecs max s'.state) r) ↔
          ∀ r ∈ s'.state.table.tasks, r.status = .cancelling → ¬ Expired now r) ∧
      ∀ r ∈ s'.state.table.tasks, r.status = .cancelling →
        ∀ ls' s'', Sys.Run (Sys.Restrict Step (Unreported r.id)) s' ls' s'' →
          r ∈ s''.state.table.tasks := by
  refine ⟨?_, ?_, ?_⟩
  · exact rows_run (P := HasDeadline) (fun req now hlive => by cases hlive)
      (fun now r r' hstep h => hasDeadline_rowStep hstep h) hinit hrun
  · intro now device capabilities leaseSecs max
    constructor
    · intro hmoves r hr hst hexpired
      refine hmoves r ⟨mem_sweepAndLease hr hst now _ _ _ _, by rw [hst]; rfl, hexpired, ?_⟩
      intro now' op _ hop
      exact stays_of_cancelling (mem_sweepAndLease hr hst now _ _ _ _) hst hop now'
    · rintro hnone r ⟨hr, hlive, hexpired, hstays⟩
      rcases sweepAndLease_rows hr hlive hexpired with ⟨hr', hsweepable⟩
      rcases RelayTask.stopped_or_terminal_of_live hlive with hleased | hcancelling
      · -- both budgets are left, so any device may take the lease over
        have hleasable : leasable now [] r = true := by
          rcases hexpired with ⟨d, hd, hlt⟩
          simp only [sweepable, hleased, hd, Option.any_some, hlt, beq_self_eq_true, decide_true,
            Bool.true_and, Bool.or_eq_false_iff, decide_eq_false_iff_not, Nat.not_le] at hsweepable
          simp [leasable, hleased, hd, hlt, hsweepable, capabilityFilter]
        exact leaves_of_leasable hr hleasable (hstays now _ le_rfl rfl)
      · exact hnone r hr' hcancelling hexpired
  · intro r hr hst ls' s'' hrun'
    refine hrun'.invariant (I := fun a => r ∈ a.state.table.tasks) hr ?_
    rintro a ⟨now, op⟩ b ⟨⟨-, rfl⟩, hop⟩ hmem
    exact stays_of_cancelling hmem hst hop now

/-- A minute after the first lease ran out its task is leased again, so nothing is stuck. -/
theorem relay_unstuck_run_sample :
    let s' := (reclaimRun.take 2).foldl (fun s l => exec l.1 l.2 s.state) emptyQueue
    ∀ r, ¬ Stuck (60 * Time.second) (sweepAndLease (60 * Time.second) "d2" [] 30 1 s'.state) r := by
  intro s'
  have hrun : Sys.Run Step emptyQueue (reclaimRun.take 2) s' :=
    .snoc (.single ⟨le_rfl, rfl⟩) ⟨le_rfl, rfl⟩
  refine ((relay_unstuck_run rfl hrun).2.1 _ _ _ _ _).2 ?_
  intro r hr hst
  have hleased : ∀ r ∈ s'.state.table.tasks, r.status = .leased := by decide +kernel
  rw [hleased r hr] at hst
  cases hst

/-- A task is enqueued, leased for thirty seconds and cancelled; its device never returns. -/
def abandonedRun : List (Time × RelayOp) :=
  [(0, .enqueue { id := "t", projectId := "p", actionType := "xprice/refresh" }),
    (0, .lease "d1" [] 30 1),
    (1, .cancel none "t")]

/-- **A cancelled task hangs.** A minute later the sweep and a lease by a device that could run the
task leave it in `cancelling`, under the lease that ran out, and no call but a report moves it. -/
theorem cancelling_hangs :
    ∃ s', Sys.Run Step emptyQueue abandonedRun s' ∧
      ∃ r, r.status = .cancelling ∧
        Stuck (60 * Time.second) (sweepAndLease (60 * Time.second) "d2" [] 30 1 s'.state) r := by
  refine ⟨_, .snoc (.snoc (.single ⟨le_rfl, rfl⟩) ⟨le_rfl, rfl⟩) ⟨by decide, rfl⟩, ?_⟩
  have hrow : ∃ r ∈ (sweepAndLease (60 * Time.second) "d2" [] 30 1
      (abandonedRun.foldl (fun s l => exec l.1 l.2 s.state) emptyQueue).state).table.tasks,
      r.status = .cancelling ∧ r.leaseDeadline = some (30 * Time.second) := by decide +kernel
  rcases hrow with ⟨r, hr, hst, hdeadline⟩
  refine ⟨r, hst, hr, by rw [hst]; rfl, ⟨_, hdeadline, by decide⟩, ?_⟩
  intro now' op _ hop
  exact stays_of_cancelling hr hst hop now'

end RelayQueue

end LightTrack
