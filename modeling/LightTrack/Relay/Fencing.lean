import LightTrack.Lib.Group
import LightTrack.Relay.Queue

/-! # Lease fencing over whole runs

A fence is the instant its lease was granted.  `RelayTask.Evolves` says once what a call
can do to a row; the rest is derived from it.

* `relay_fencing_run` : if the clock never shows the same instant at two leases of one
  task, only the latest lease of a task can write it,
* `repeated_instant_shares_fence` : two leases of one task at one instant share a fence.
-/

namespace LightTrack

/-- A row that was asked to stop. -/
def RelayTask.Stopped (r : RelayTask) : Prop := r.status = .cancelling ∨ r.status = .cancelled

/-- What one call at `now` can do to a row; `leased` says whether it leases it. -/
structure RelayTask.Evolves (now : Time) (leased : Prop) (r r' : RelayTask) : Prop where
  id : r'.id = r.id
  fence : ∀ f, r'.leaseFence = some f → leased ∧ f = now ∨ ¬ leased ∧ r.leaseFence = some f
  unstopped : leased → ¬ r.Stopped
  stopped : r.Stopped → r'.Stopped
  final : r.status.isTerminal = true → r' = r

namespace RelayTask

variable {now : Time} {r : RelayTask}

theorem Evolves.refl : Evolves now False r r :=
  ⟨rfl, fun _ hf => .inr ⟨not_false, hf⟩, False.elim, fun h => h, fun _ => rfl⟩

theorem stopped_or_terminal_of_live (h : r.status.isLiveLease = true) :
    r.status = .leased ∨ r.status = .cancelling := by
  unfold RelayStatus.isLiveLease at h
  cases hst : r.status <;> simp_all

/-- A live row that ends or keeps its fence, and stays stopped if it was. -/
theorem Evolves.of_live {r' : RelayTask} (hlive : r.status.isLiveLease = true) (hid : r'.id = r.id)
    (hfence : r'.leaseFence = none ∨ r'.leaseFence = r.leaseFence)
    (hstop : r.status = .cancelling → r'.Stopped) : Evolves now False r r' := by
  have hst := stopped_or_terminal_of_live hlive
  refine ⟨hid, fun f hf => .inr ⟨not_false, ?_⟩, False.elim, fun h => ?_, fun h => ?_⟩
  · rcases hfence with hnone | hsame
    · rw [hnone] at hf
      cases hf
    · rw [← hsame]
      exact hf
  · rcases h with h | h
    · exact hstop h
    · rcases hst with h' | h' <;> rw [h'] at h <;> cases h
  · rcases hst with h' | h' <;> rw [h'] at h <;> cases h

theorem evolves_leaseRow (device : String) (deadline : Time)
    (h : r.status = .queued ∨ r.status = .leased) :
    Evolves now True r (RelayTable.leaseRow device now deadline r) := by
  refine ⟨rfl, fun f hf => .inl ⟨trivial, ?_⟩, fun _ hs => ?_, fun hs => ?_, fun ht => ?_⟩
  · exact (Option.some.inj hf).symm
  -- a leasable row is queued or leased, so neither stopped nor ended
  · rcases h with h | h <;> rcases hs with hs | hs <;> rw [h] at hs <;> cases hs
  · rcases h with h | h <;> rcases hs with hs | hs <;> rw [h] at hs <;> cases hs
  · rcases h with h | h <;> rw [h] at ht <;> cases ht

theorem evolves_sweepRow : Evolves now False r (RelayTable.sweepRow now r) := by
  unfold RelayTable.sweepRow
  split_ifs with h
  · have hst : r.status = .leased := by
      simp only [RelayTable.sweepable, Bool.and_eq_true, beq_iff_eq] at h
      exact h.1.1
    exact .of_live (by rw [hst]; rfl) rfl (.inl rfl) fun hc => by rw [hst] at hc; cases hc
  · exact .refl

theorem evolves_settleRow (outcome : RelayOutcome) (hlive : r.status.isLiveLease = true) :
    Evolves now False r (RelayTable.settleRow now outcome r) := by
  refine .of_live hlive (RelayTable.settleRow_id now outcome r) (.inl ?_) fun hc => .inr ?_
  · cases outcome <;> rfl
  · cases outcome <;> simp [RelayTable.settleRow, hc]

theorem evolves_cancelRow (project : Option String) (id : String) :
    Evolves now False r (RelayTable.cancelRow now project id r) := by
  unfold RelayTable.cancelRow
  split
  next h =>
    have hst : r.status = .queued ∨ r.status = .leased := by
      simp only [Bool.and_eq_true, Bool.or_eq_true, beq_iff_eq] at h
      exact h.1.2
    refine ⟨rfl, fun f hf => .inr ⟨not_false, hf⟩, False.elim, fun hs => ?_, fun ht => ?_⟩
    · rcases hst with h | h <;> rcases hs with hs | hs <;> rw [h] at hs <;> cases hs
    · rcases hst with h | h <;> rw [h] at ht <;> cases ht
  next => exact .refl

end RelayTask

namespace RelayTable

variable {t : RelayTable} {now : Time}

theorem eq_of_id (t : RelayTable) {r r' : RelayTask} (hr : r ∈ t.tasks) (hr' : r' ∈ t.tasks)
    (h : r.id = r'.id) : r = r' :=
  List.inj_on_of_nodup_map t.ids hr hr' h

/-- What a lease picks was due, or held under a lease that ran out. -/
theorem status_of_mem_leaseIds {capabilities : List String} {max : ℕ} {r : RelayTask}
    (hr : r ∈ t.tasks) (h : r.id ∈ t.leaseIds now capabilities max) :
    r.status = .queued ∨ r.status = .leased := by
  rcases List.mem_map.1 h with ⟨r', hr', hid⟩
  have hmem := List.mem_mergeSort.1 (List.mem_of_mem_take hr')
  rcases List.mem_filter.1 hmem with ⟨hmem, hleasable⟩
  have heq : r' = r := t.eq_of_id hmem hr hid
  subst heq
  simp only [leasable, Bool.and_eq_true, Bool.or_eq_true, beq_iff_eq] at hleasable
  rcases hleasable.1 with h | h
  · exact .inl h.1
  · exact .inr h.1.1.1

/-- A holder's write reaches only rows under a live lease with its fence. -/
theorem holds_iff {id : String} {fence : Time} {r : RelayTask} :
    holds id fence r = true ↔
      r.id = id ∧ r.leaseFence = some fence ∧ r.status.isLiveLease = true := by
  simp [holds, and_assoc]

theorem evolves_holderWrite {id : String} {fence : Time} {f : RelayTask → RelayTask}
    (hid : ∀ r, (f r).id = r.id) (hfence : ∀ r, (f r).leaseFence = r.leaseFence)
    (hst : ∀ r, (f r).status = r.status) (r : RelayTask) :
    RelayTask.Evolves now False r (if holds id fence r then f r else r) := by
  split_ifs with h
  · exact .of_live (holds_iff.1 h).2.2 (hid r) (.inr (hfence r)) fun hc =>
      .inl ((hst r).trans hc)
  · exact .refl

theorem get_eq_some {project : Option String} {id : String} {r : RelayTask}
    (h : t.get project id = some r) : r ∈ t.tasks ∧ r.id = id := by
  have hp := List.find?_some h
  simp only [Bool.and_eq_true, beq_iff_eq] at hp
  exact ⟨List.mem_of_find?_eq_some h, hp.1⟩

/-- A settle writes nothing, or the one live row it names, under the fence it names. -/
theorem settle_tasks (t : RelayTable) (now : Time) (id : String) (fence : Option Time)
    (outcome : RelayOutcome) :
    (t.settle now id fence outcome).2 = t ∨
      ∃ r ∈ t.tasks, r.id = id ∧ r.status.isLiveLease = true ∧
        (∀ f, fence = some f → r.leaseFence = some f) ∧
        (t.settle now id fence outcome).2.tasks =
          t.tasks.map fun r => if r.id = id then settleRow now outcome r else r := by
  unfold settle
  cases hget : t.get none id with
  | none => exact .inl rfl
  | some task =>
    rcases get_eq_some hget with ⟨hmem, hid⟩
    show (if _ then _ else _ : RelaySettle × RelayTable).2 = t ∨ _
    by_cases hheld : (task.status.isLiveLease && fence.all fun f => task.leaseFence == some f) = true
    · right
      have hparts := hheld
      rw [Bool.and_eq_true] at hparts
      refine ⟨task, hmem, hid, hparts.1, fun f hf => ?_, ?_⟩
      · subst hf
        simpa using hparts.2
      · simp [hheld]
    · left
      rw [if_neg hheld]

end RelayTable

namespace RelayQueue

open RelayTable

/-- What one call can do to the rows: each evolves, and new ones carry no lease. -/
theorem exec_tasks (now : Time) (op : RelayOp) (q : RelayQueue) :
    ∃ (g : RelayTask → RelayTask) (new : List RelayTask),
      (exec now op q).state.table.tasks = q.table.tasks.map g ++ new ∧
      (∀ r ∈ q.table.tasks, r.Evolves now (r.id ∈ op.leases now q.table) (g r)) ∧
      ∀ r ∈ new, r.leaseFence = none := by
  have hnone : ∀ id, (id ∈ ([] : List String)) = False := fun id => by simp
  cases op with
  | enqueue req =>
    refine ⟨id, ((exec now (.enqueue req) q).state.table.tasks.drop q.table.tasks.length), ?_, ?_, ?_⟩
    all_goals simp only [exec, RelayTable.create, RelayOp.leases, hnone]
    · split_ifs <;> simp
    · exact fun r _ => .refl
    · split_ifs
      · simp
      · simp
      · simp [EnqueueReq.task]
  | lease device capabilities leaseSecs max =>
    refine ⟨_, [], (List.append_nil _).symm, fun r hr => ?_, by simp⟩
    show r.Evolves now (r.id ∈ q.table.leaseIds now capabilities max) _
    split_ifs with h
    · have hev : r.Evolves now True
          (RelayTable.leaseRow device now (deadlineAt now leaseSecs) r) :=
        RelayTask.evolves_leaseRow device _ (status_of_mem_leaseIds hr h)
      simpa [h] using hev
    · simpa [h] using RelayTask.Evolves.refl
  | sweepDead =>
    refine ⟨_, [], (List.append_nil _).symm, fun r _ => ?_, by simp⟩
    simpa only [RelayOp.leases, hnone] using RelayTask.evolves_sweepRow
  | renew id fence leaseSecs =>
    refine ⟨_, [], (List.append_nil _).symm, fun r _ => ?_, by simp⟩
    simp only [RelayOp.leases, hnone]
    exact evolves_holderWrite
      (f := fun r => { r with leaseDeadline := some (deadlineAt now leaseSecs), updatedAt := now })
      (fun _ => rfl) (fun _ => rfl) (fun _ => rfl) r
  | updateProgress id fence progress =>
    refine ⟨_, [], (List.append_nil _).symm, fun r _ => ?_, by simp⟩
    simp only [RelayOp.leases, hnone]
    exact evolves_holderWrite
      (f := fun r => { r with progress := some progress, updatedAt := now })
      (fun _ => rfl) (fun _ => rfl) (fun _ => rfl) r
  | settle id fence outcome =>
    simp only [RelayOp.leases, hnone]
    rcases settle_tasks q.table now id fence outcome with hsame | ⟨task, hmem, hid, hlive, -, hmap⟩
    · refine ⟨fun r => r, [], ?_, fun r _ => .refl, by simp⟩
      show (q.table.settle now id fence outcome).2.tasks = _
      rw [hsame]
      simp
    · -- the checked task is the one row the write names
      refine ⟨_, [], hmap.trans (List.append_nil _).symm, fun r hr => ?_, by simp⟩
      split_ifs with hrid
      · have heq : r = task := q.table.eq_of_id hr hmem (hrid.trans hid.symm)
        exact RelayTask.evolves_settleRow outcome (heq ▸ hlive)
      · exact .refl
  | cancel project id =>
    refine ⟨_, [], (List.append_nil _).symm, fun r _ => ?_, by simp⟩
    simpa only [RelayOp.leases, hnone] using RelayTask.evolves_cancelRow project id

/-- A lease records one grant for each row it writes. -/
theorem exec_grants (now : Time) (op : RelayOp) (q : RelayQueue) :
    (exec now op q).state.grants = q.grants ++
      (q.table.tasks.filter fun r => decide (r.id ∈ op.leases now q.table)).map fun r =>
        (r.id, now) := by
  cases op with
  | lease device capabilities leaseSecs max =>
    show q.grants ++ ((q.table.lease now device capabilities leaseSecs max).1.map fun r =>
      (r.id, now)) = _
    simp only [RelayTable.lease, RelayOp.leases, List.map_map]
    congr 1
    refine List.map_congr_left fun r hr => ?_
    have hin : r.id ∈ q.table.leaseIds now capabilities max := by
      simpa using (List.mem_filter.1 hr).2
    simp [hin, RelayTable.leaseRow]
  | _ => simp [exec, RelayOp.leases]

/-- A task's fences grow by the instant of the call exactly when the call leases it. -/
theorem grantsOf_exec (now : Time) (op : RelayOp) (q : RelayQueue) {r : RelayTask}
    (hr : r ∈ q.table.tasks) :
    (exec now op q).state.grantsOf r.id =
      q.grantsOf r.id ++ if r.id ∈ op.leases now q.table then [now] else [] := by
  -- ids are unique, so the call leases this task at most once
  have hone : q.table.tasks.filter (fun x => x.id == r.id) = [r] :=
    Group.filter_key q.table.ids hr
  rw [grantsOf, exec_grants, List.filter_append, List.map_append, List.filter_map, List.map_map,
    List.filter_filter]
  show q.grantsOf r.id ++ _ = _
  congr 1
  have hcomm : (q.table.tasks.filter fun x =>
      (((fun g : String × Time => g.1 == r.id) ∘ fun x : RelayTask => (x.id, now)) x &&
        decide (x.id ∈ op.leases now q.table))) =
      [r].filter fun x => decide (x.id ∈ op.leases now q.table) := by
    rw [← hone, List.filter_filter]
    refine List.filter_congr fun x _ => ?_
    exact Bool.and_comm _ _
  rw [hcomm]
  by_cases hin : r.id ∈ op.leases now q.table <;> simp [hin]

/-- A call records no grant for a task that is not in the table. -/
theorem grantsOf_exec_of_not_mem (now : Time) (op : RelayOp) (q : RelayQueue) {id : String}
    (hid : ∀ r ∈ q.table.tasks, r.id ≠ id) :
    (exec now op q).state.grantsOf id = q.grantsOf id := by
  rw [grantsOf, exec_grants, List.filter_append, List.map_append, grantsOf,
    List.append_right_eq_self, List.map_eq_nil_iff, List.filter_eq_nil_iff]
  intro g hg
  rcases List.mem_map.1 hg with ⟨r, hr, rfl⟩
  have hmem := (List.mem_filter.1 hr).1
  simpa using hid r hmem

/-! ## The invariant -/

/-- Every lease on a row is the last one granted, and no grant lies in the future. -/
structure Fenced (s : Sys.Timed Time RelayQueue) : Prop where
  fence : ∀ r ∈ s.state.table.tasks, ∀ f, r.leaseFence = some f →
    (s.state.grantsOf r.id).getLast? = some f
  past : ∀ g ∈ s.state.grants, g.2 ≤ s.clock

theorem fenced_init {s : Sys.Timed Time RelayQueue} (h : Init s) : Fenced s where
  fence := fun r hr f hf => by
    rw [h.2 r hr] at hf
    cases hf
  past := fun g hg => by
    rw [h.1] at hg
    cases hg

theorem fenced_step (s : Sys.Timed Time RelayQueue) (l : Time × RelayOp)
    (s' : Sys.Timed Time RelayQueue) (hstep : Step s l s') (h : Fenced s) : Fenced s' := by
  rcases l with ⟨now, op⟩
  rcases hstep with ⟨hclock, rfl⟩
  have hclock' : (exec now op s.state).clock = now := by cases op <;> rfl
  rcases exec_tasks now op s.state with ⟨g, new, htasks, hev, hnew⟩
  constructor
  · intro r' hr' f hf
    rw [htasks] at hr'
    rcases List.mem_append.1 hr' with hr' | hr'
    · rcases List.mem_map.1 hr' with ⟨r, hr, rfl⟩
      have hevr := hev r hr
      rw [hevr.id, grantsOf_exec now op s.state hr]
      rcases hevr.fence f hf with ⟨hleased, rfl⟩ | ⟨hleased, hf⟩
      · simp [hleased]
      · simpa [hleased] using h.fence r hr f hf
    · -- a new row carries no lease
      rw [hnew r' hr'] at hf
      cases hf
  · intro g hg
    rw [exec_grants] at hg
    rw [hclock']
    rcases List.mem_append.1 hg with hg | hg
    · exact (h.past g hg).trans hclock
    · rcases List.mem_map.1 hg with ⟨r, -, rfl⟩
      exact le_refl _

/-- The clock does not show an instant at which a task it leases was leased before. -/
def FreshLeases (s : Sys.Timed Time RelayQueue) (l : Time × RelayOp) : Prop :=
  ∀ id ∈ l.2.leases l.1 s.state.table, (id, l.1) ∉ s.state.grants

/-- The fences of every task strictly increase. -/
def Increasing (q : RelayQueue) : Prop := ∀ id, (q.grantsOf id).Pairwise (· < ·)

theorem mem_grantsOf {q : RelayQueue} {id : String} {f : Time} :
    f ∈ q.grantsOf id ↔ (id, f) ∈ q.grants := by
  simp [grantsOf]

theorem increasing_step {s s' : Sys.Timed Time RelayQueue} {l : Time × RelayOp}
    (hstep : Sys.Restrict Step FreshLeases s l s') (hs : Fenced s) (h : Increasing s.state) :
    Increasing s'.state := by
  rcases l with ⟨now, op⟩
  rcases hstep with ⟨⟨hclock, rfl⟩, hfresh⟩
  intro id
  by_cases hid : ∃ r ∈ s.state.table.tasks, r.id = id
  · rcases hid with ⟨r, hr, rfl⟩
    rw [grantsOf_exec now op s.state hr]
    split_ifs with hleased
    · rw [List.pairwise_append]
      refine ⟨h r.id, List.pairwise_singleton _ _, fun f hf f' hf' => ?_⟩
      rw [List.mem_singleton] at hf'
      subst hf'
      -- an earlier grant is not later than now, and a fresh one is not now
      have hgrant := mem_grantsOf.1 hf
      have hle : f ≤ f' := (hs.past _ hgrant).trans hclock
      have hne : f ≠ f' := fun heq => hfresh r.id hleased (heq ▸ hgrant)
      exact lt_of_le_of_ne hle hne
    · rw [List.append_nil]
      exact h r.id
  · rw [grantsOf_exec_of_not_mem now op s.state fun r hr heq => hid ⟨r, hr, heq⟩]
    exact h id

/-! ## What a run keeps of one task -/

/-- A stopped task is never leased again. -/
theorem stopped_run {s s' : Sys.Timed Time RelayQueue} {ls : List (Time × RelayOp)}
    (hrun : Sys.Run Step s ls s') {r : RelayTask} (hr : r ∈ s.state.table.tasks)
    (hstop : r.Stopped) : s'.state.grantsOf r.id = s.state.grantsOf r.id := by
  have hinv := hrun.invariant
    (I := fun a => a.state.grantsOf r.id = s.state.grantsOf r.id ∧
      ∃ r' ∈ a.state.table.tasks, r'.id = r.id ∧ r'.Stopped)
    ⟨rfl, r, hr, rfl, hstop⟩ ?_
  · exact hinv.1
  rintro a ⟨now, op⟩ b ⟨-, rfl⟩ ⟨hsame, r', hr', hid, hstop'⟩
  rcases exec_tasks now op a.state with ⟨g, new, htasks, hev, -⟩
  have hevr := hev r' hr'
  have hleased : r'.id ∉ op.leases now a.state.table := fun hl => hevr.unstopped hl hstop'
  constructor
  · rw [← hsame, ← hid, grantsOf_exec now op a.state hr']
    simp [hleased]
  · refine ⟨g r', ?_, hevr.id.trans hid, hevr.stopped hstop'⟩
    show g r' ∈ (exec now op a.state).state.table.tasks
    rw [htasks]
    exact List.mem_append_left _ (List.mem_map_of_mem hr')

/-- A terminal task never changes. -/
theorem terminal_run {s s' : Sys.Timed Time RelayQueue} {ls : List (Time × RelayOp)}
    (hrun : Sys.Run Step s ls s') {r : RelayTask} (hr : r ∈ s.state.table.tasks)
    (hterm : r.status.isTerminal = true) : r ∈ s'.state.table.tasks := by
  refine hrun.invariant (I := fun a => r ∈ a.state.table.tasks) hr ?_
  rintro a ⟨now, op⟩ b ⟨-, rfl⟩ hmem
  rcases exec_tasks now op a.state with ⟨g, new, htasks, hev, -⟩
  show r ∈ (exec now op a.state).state.table.tasks
  rw [htasks]
  have hsame : g r = r := (hev r hmem).final hterm
  exact List.mem_append_left _ (hsame ▸ List.mem_map_of_mem hmem)

/-! ## A holder's writes -/

/-- A rewrite of the rows under one fence of one task keeps every other row. -/
theorem mem_holderWrite {t : RelayTable} {id : String} {fence : Time} {f : RelayTask → RelayTask}
    (hid : ∀ r, (f r).id = r.id) {r : RelayTask} (hr : r ∈ t.tasks)
    (hno : ¬ (r.id = id ∧ r.leaseFence = some fence)) :
    r ∈ (t.holderWrite id fence f hid).tasks := by
  have hholds : ¬ holds id fence r = true := fun h => hno ⟨(holds_iff.1 h).1, (holds_iff.1 h).2.1⟩
  exact List.mem_map.2 ⟨r, hr, if_neg hholds⟩

/-- A holder's write changes no row but the one it names, and that only under its fence. -/
theorem holder_write {now : Time} {op : RelayOp} {q : RelayQueue} {id : String} {fence : Time}
    (hop : op.holder = some (id, fence)) {r : RelayTask} (hr : r ∈ q.table.tasks)
    (hchanged : r ∉ (exec now op q).state.table.tasks) :
    r.id = id ∧ r.leaseFence = some fence := by
  by_contra hno
  apply hchanged
  cases op with
  | renew id' fence' leaseSecs =>
    cases hop
    refine mem_holderWrite ?_ hr hno
    exact fun _ => rfl
  | updateProgress id' fence' progress =>
    cases hop
    refine mem_holderWrite ?_ hr hno
    exact fun _ => rfl
  | settle id' fence' outcome =>
    rcases Option.map_eq_some_iff.1 hop with ⟨f, hf, hpair⟩
    cases hpair
    show r ∈ (q.table.settle now id fence' outcome).2.tasks
    rcases settle_tasks q.table now id fence' outcome with
      hsame | ⟨task, hmem, hid, -, hfence, hmap⟩
    · rw [hsame]
      exact hr
    · rw [hmap]
      -- a row with the settled id is the settled row, and that one is under the fence
      have hrid : r.id ≠ id := fun heq => by
        have htask : r = task := q.table.eq_of_id hr hmem (heq.trans hid.symm)
        exact hno ⟨heq, htask ▸ hfence fence hf⟩
      exact List.mem_map.2 ⟨r, hr, if_neg hrid⟩
  | _ => cases hop

/-- The lease under `fence` is the latest one granted on the task, and the only one under it. -/
def LatestLease (q : RelayQueue) (id : String) (fence : Time) : Prop :=
  ∃ earlier, q.grantsOf id = earlier ++ [fence] ∧ fence ∉ earlier

theorem latestLease_of_getLast {q : RelayQueue} {id : String} {fence : Time} (hinc : q.Increasing)
    (h : (q.grantsOf id).getLast? = some fence) : q.LatestLease id fence := by
  rcases List.getLast?_eq_some_iff.1 h with ⟨earlier, heq⟩
  refine ⟨earlier, heq, fun hmem => ?_⟩
  have hpair := hinc id
  rw [heq, List.pairwise_append] at hpair
  exact lt_irrefl _ (hpair.2.2 fence hmem fence (List.mem_singleton_self fence))

/-- **Lease fencing.** From a queue with no lease, in every run under a clock that does not go
backwards and never shows the same instant at two leases of one task: the fences of a task
strictly increase, a holder's write changes a row only under the latest lease of that task, a
task asked to stop is never leased again, and a terminal task never changes. -/
theorem relay_fencing_run {s s' : Sys.Timed Time RelayQueue} {ls : List (Time × RelayOp)}
    (hinit : Init s) (hrun : Sys.Run (Sys.Restrict Step FreshLeases) s ls s') :
    s'.state.Increasing ∧
      (∀ now op id fence, RelayOp.holder op = some (id, fence) →
        ∀ r ∈ s'.state.table.tasks, r ∉ (exec now op s'.state).state.table.tasks →
          r.id = id ∧ s'.state.LatestLease id fence) ∧
      ∀ r ∈ s'.state.table.tasks, ∀ ls' s'', Sys.Run Step s' ls' s'' →
        (r.Stopped → s''.state.grantsOf r.id = s'.state.grantsOf r.id) ∧
        (r.status.isTerminal = true → r ∈ s''.state.table.tasks) := by
  have hinv : Fenced s' ∧ s'.state.Increasing := by
    refine hrun.invariant (I := fun a => Fenced a ∧ a.state.Increasing)
      ⟨fenced_init hinit, fun id => ?_⟩ fun a l b hstep h =>
        ⟨fenced_step a l b hstep.1 h.1, increasing_step hstep h.1 h.2⟩
    rw [grantsOf, hinit.1]
    exact List.Pairwise.nil
  refine ⟨hinv.2, fun now op id fence hop r hr hchanged => ?_, fun r hr ls' s'' hrun' =>
    ⟨stopped_run hrun' hr, terminal_run hrun' hr⟩⟩
  have hheld := holder_write hop hr hchanged
  refine ⟨hheld.1, latestLease_of_getLast hinv.2 ?_⟩
  rw [← hheld.1]
  exact hinv.1.fence r hr fence hheld.2

/-! ## One task, two devices -/

/-- A queue with nothing in it. -/
def emptyQueue : Sys.Timed Time RelayQueue where
  clock := 0
  state := { table := ⟨[], by simp⟩, grants := [] }

/-- One task is enqueued, leased for thirty seconds, and leased again a minute later. -/
def reclaimRun : List (Time × RelayOp) :=
  [(0, .enqueue { id := "t", projectId := "p", actionType := "xprice/refresh" }),
    (0, .lease "d1" [] 30 1),
    (60 * Time.second, .lease "d2" ["xprice/*"] 30 1)]

/-- The first device's late result leaves the second device's row alone. -/
theorem relay_fencing_run_sample :
    let s' := reclaimRun.foldl (fun s l => exec l.1 l.2 s.state) emptyQueue
    s'.state.grantsOf "t" = [0, 60 * Time.second] ∧
      ∀ r ∈ s'.state.table.tasks, r ∈ (exec (61 * Time.second)
        (.settle "t" (some 0) (.succeeded .null)) s'.state).state.table.tasks := by
  intro s'
  have hrun : Sys.Run (Sys.Restrict Step FreshLeases) emptyQueue reclaimRun s' := by
    refine .snoc (.snoc (.single ⟨⟨?_, rfl⟩, ?_⟩) ⟨⟨?_, rfl⟩, ?_⟩) ⟨⟨?_, rfl⟩, ?_⟩
    all_goals
      try unfold FreshLeases
      decide +kernel
  have hinit : Init emptyQueue := ⟨rfl, fun r hr => absurd hr List.not_mem_nil⟩
  have hgrants : s'.state.grantsOf "t" = [0, 60 * Time.second] := by decide +kernel
  refine ⟨hgrants, fun r hr => ?_⟩
  by_contra hchanged
  rcases (relay_fencing_run hinit hrun).2.1 (61 * Time.second) _ "t" 0 rfl r hr hchanged with
    ⟨-, earlier, hlast, -⟩
  -- the last grant is the second device's
  rw [hgrants] at hlast
  have h := congrArg List.getLast? hlast
  rw [List.getLast?_concat] at h
  revert h
  decide

/-- A lease, its deferral and another lease, all at one instant, and the second device's report. -/
def instantRun : List (Time × RelayOp) :=
  [(0, .enqueue { id := "t", projectId := "p", actionType := "xprice/refresh" }),
    (0, .lease "d1" [] 30 1),
    (0, .settle "t" (some 0) (.deferred (some 0) none)),
    (0, .lease "d2" [] 30 1)]

/-- **Two leases at one instant share a fence.** Where the clock does not move between two leases
of a task, the fences do not increase and the first device's late write lands on the second's
lease. -/
theorem repeated_instant_shares_fence :
    ∃ s', Init emptyQueue ∧ Sys.Run Step emptyQueue instantRun s' ∧
      s'.state.grantsOf "t" = [0, 0] ∧ ¬ s'.state.Increasing ∧
      (s'.state.table.tasks.map fun r => (r.device, r.progress)) = [(some "d2", none)] ∧
      ((exec 1 (.updateProgress "t" 0 "late") s'.state).state.table.tasks.map fun r =>
        (r.device, r.progress)) = [(some "d2", some "late")] := by
  have hinit : Init emptyQueue := ⟨rfl, fun r hr => absurd hr List.not_mem_nil⟩
  refine ⟨_, hinit, .snoc (.snoc (.snoc (.single ⟨le_rfl, rfl⟩) ⟨le_rfl, rfl⟩) ⟨le_rfl, rfl⟩)
    ⟨le_rfl, rfl⟩, ?_, fun hinc => ?_, ?_, ?_⟩
  · decide +kernel
  · have h := hinc "t"
    revert h
    decide +kernel
  · decide +kernel
  · decide +kernel

end RelayQueue

end LightTrack
