import LightTrack.Relay.Devices

/-! # What is delivered

* `deliveries_once` : a lease is delivered once at most,
* `succeeded_delivered` : what is recorded as a success was reported by the run of the last lease,
  and was delivered before,
* `cancelled_not_delivered` : a run that hears of a cancel before the seam delivers nothing.
-/

namespace LightTrack.Agent

/-! ## What a call keeps -/

section Calls

variable {now : Time} {op : RelayOp} {q : RelayQueue}

/-- The task was asked to stop. -/
def StoppedIn (t : RelayTable) (id : String) : Prop := ∃ r ∈ t.tasks, r.id = id ∧ r.Stopped

theorem stoppedIn_exec {id : String} (h : StoppedIn q.table id) :
    StoppedIn (RelayQueue.exec now op q).state.table id := by
  obtain ⟨r, hr, rfl, hstop⟩ := h
  obtain ⟨g, new, htasks, hev, -⟩ := RelayQueue.exec_tasks now op q
  refine ⟨g r, ?_, (hev r hr).id, (hev r hr).stopped hstop⟩
  rw [htasks]
  exact List.mem_append_left _ (List.mem_map_of_mem hr)

/-- What is recorded as a success stays, and is not leased again. -/
theorem succeeded_stays {r : RelayTask} (hr : r ∈ q.table.tasks) (hst : r.status = .succeeded) :
    r ∈ (RelayQueue.exec now op q).state.table.tasks ∧
      (RelayQueue.exec now op q).state.grantsOf r.id = q.grantsOf r.id := by
  obtain ⟨g, new, htasks, hev, -⟩ := RelayQueue.exec_tasks now op q
  constructor
  · have hsame : g r = r := (hev r hr).final (by rw [hst]; rfl)
    rw [htasks]
    exact List.mem_append_left _ (hsame ▸ List.mem_map_of_mem hr)
  · have hnot : r.id ∉ op.leases now q.table := by
      cases op with
      | lease device capabilities leaseSecs max =>
        intro hin
        rcases RelayTable.status_of_mem_leaseIds hr hin with h | h <;> rw [hst] at h <;> cases h
      | _ => exact List.not_mem_nil
    rw [RelayQueue.grantsOf_exec now op q hr, if_neg hnot, List.append_nil]

/-- **What is recorded as a success was reported**: the call was a settle of that task under the
fence of its row, and the task had not been asked to stop. -/
theorem succeeded_exec {r' : RelayTask} (hr' : r' ∈ (RelayQueue.exec now op q).state.table.tasks)
    (hst : r'.status = .succeeded) : r' ∈ q.table.tasks ∨
      ∃ fence result, op = .settle r'.id fence (.succeeded result) ∧ r'.result = result ∧
        ∃ r ∈ q.table.tasks, r.id = r'.id ∧ ¬ r.Stopped ∧
          ∀ f, fence = some f → r.leaseFence = some f := by
  cases op with
  | enqueue req =>
    simp only [RelayQueue.exec, RelayTable.create] at hr'
    split_ifs at hr'
    · exact .inl hr'
    · exact .inl hr'
    · rcases List.mem_append.1 hr' with hr' | hr'
      · exact .inl hr'
      · rw [List.mem_singleton.1 hr'] at hst
        cases hst
  | lease device capabilities leaseSecs max =>
    rcases List.mem_map.1 hr' with ⟨r, hr, rfl⟩
    split_ifs at hst ⊢
    · cases hst
    · exact .inl hr
  | sweepDead =>
    rcases List.mem_map.1 hr' with ⟨r, hr, rfl⟩
    unfold RelayTable.sweepRow at hst ⊢
    split_ifs at hst ⊢
    exact .inl hr
  | renew id fence leaseSecs =>
    rcases List.mem_map.1 hr' with ⟨r, hr, rfl⟩
    split_ifs at hst ⊢ with hholds
    · have hlive := (RelayTable.holds_iff.1 hholds).2.2
      replace hst : r.status = .succeeded := hst
      rw [hst] at hlive
      cases hlive
    · exact .inl hr
  | updateProgress id fence progress =>
    rcases List.mem_map.1 hr' with ⟨r, hr, rfl⟩
    split_ifs at hst ⊢ with hholds
    · have hlive := (RelayTable.holds_iff.1 hholds).2.2
      replace hst : r.status = .succeeded := hst
      rw [hst] at hlive
      cases hlive
    · exact .inl hr
  | settle id fence outcome =>
    replace hr' : r' ∈ (q.table.settle now id fence outcome).2.tasks := hr'
    rcases RelayTable.settle_tasks q.table now id fence outcome with
      hsame | ⟨task, hmem, hid, hlive, hfence, hmap⟩
    · rw [hsame] at hr'
      exact .inl hr'
    · rw [hmap] at hr'
      rcases List.mem_map.1 hr' with ⟨r, hr, rfl⟩
      by_cases hrid : r.id = id
      · rw [if_pos hrid] at hst ⊢
        have heq : r = task := q.table.eq_of_id hr hmem (hrid.trans hid.symm)
        subst heq
        right
        have hrow := RelayTable.settleRow_id now outcome r
        rcases RelayTask.stopped_or_terminal_of_live hlive with hleased | hcancelling
        · cases outcome with
          | succeeded result =>
            refine ⟨fence, result, ?_, rfl, r, hr, hrow.symm, ?_, hfence⟩
            · rw [hrow, hrid]
            · rintro (h | h) <;> rw [hleased] at h <;> cases h
          | failed err =>
            simp only [RelayTable.settleRow, hleased] at hst
            simp only [reduceCtorEq, decide_false, Bool.false_eq_true, if_false] at hst
            split_ifs at hst
          | deferred secs reason =>
            simp only [RelayTable.settleRow, hleased] at hst
            simp at hst
        · cases outcome <;> simp [RelayTable.settleRow, hcancelling] at hst
      · rw [if_neg hrid] at hst ⊢
        exact .inl hr
  | cancel project id =>
    rcases List.mem_map.1 hr' with ⟨r, hr, rfl⟩
    unfold RelayTable.cancelRow at hst ⊢
    split_ifs at hst ⊢
    exact .inl hr

/-- A renewal that was answered with a cancel was of a task that was asked to stop. -/
theorem stoppedIn_renew {t : RelayTable} {id : String} {fence : Time} {secs : Int}
    {deadline : Option Time} (h : (t.renew now id fence secs).1 = .held deadline true) :
    StoppedIn t id := by
  replace h : t.heldAnswer id fence (some (RelayTable.deadlineAt now secs)) = .held deadline true :=
    h
  unfold RelayTable.heldAnswer at h
  split at h
  next r hfind =>
    have hholds := RelayTable.holds_iff.1 (List.find?_some hfind)
    simp only [LeaseHeld.held.injEq, decide_eq_true_eq] at h
    exact ⟨r, List.mem_of_find?_eq_some hfind, hholds.1, .inl h.2⟩
  · split at h <;> cases h

end Calls

/-! ## What an action keeps of its run -/

/-- What holds of the `i`th run. -/
structure RunOk (s : RelaySystem) (i : ℕ) (run : AgentRun) : Prop where
  /-- The heartbeat ends with what interrupted it. -/
  ended : run.interrupt ≠ none → run.beat = .ended
  /-- A run is told of cancels that happened. -/
  told : (run.interrupt = some .cancelled ∨ ∃ d, run.beat = .answered (.held d true)) →
    StoppedIn s.queue.table run.task.id
  hosted : ∀ p, run.produced = some p → ∃ host, p = execute host run.task
  /-- Before there is a report, the connector has not been called. -/
  quiet : run.stage ≠ .settling → run.stage ≠ .done →
    i ∉ s.delivered.map Prod.fst ∧ run.report = none
  /-- A success is reported of what was delivered, or was cancelled. -/
  reported : ∀ report, run.report = some report → ∃ p, run.produced = some p ∧
    (report.status = .succeeded → report = p.report ∧
      (p.delivery.isSome → (i, true) ∈ s.delivered ∨ run.interrupt = some .cancelled))

section Actions

variable {s s' : RelaySystem} {i : ℕ} {run : AgentRun}

/-- What happens elsewhere leaves a run as it is. -/
theorem RunOk.elsewhere (h : RunOk s i run)
    (hstop : ∀ id, StoppedIn s.queue.table id → StoppedIn s'.queue.table id)
    (hsub : ∀ d ∈ s.delivered, d ∈ s'.delivered)
    (hother : i ∈ s'.delivered.map Prod.fst → i ∈ s.delivered.map Prod.fst) : RunOk s' i run where
  ended := h.ended
  told := fun ht => hstop _ (h.told ht)
  hosted := h.hosted
  quiet := fun hs hd => ⟨fun hmem => (h.quiet hs hd).1 (hother hmem), (h.quiet hs hd).2⟩
  reported := by
    intro report hreport
    obtain ⟨p, hp, hsucc⟩ := h.reported report hreport
    refine ⟨p, hp, fun hst => ⟨(hsucc hst).1, fun hsome => ?_⟩⟩
    exact ((hsucc hst).2 hsome).imp_left (hsub _)

/-- An answer to the heartbeat. -/
theorem RunOk.heed (h : RunOk s i run) {v : Verdict}
    (hcancel : v.interrupt = some .cancelled → StoppedIn s.queue.table run.task.id)
    (hbeat : run.beat ≠ .ended) : RunOk s i (run.heed v) := by
  have hnone : run.interrupt = none := by
    by_contra hne
    exact hbeat (h.ended hne)
  unfold AgentRun.heed
  cases hv : v.interrupt with
  | none =>
    refine ⟨fun hne => absurd hnone hne, ?_, h.hosted, h.quiet, h.reported⟩
    rintro (ht | ⟨d, ht⟩)
    · exact h.told (.inl ht)
    · cases ht
  | some stop =>
    refine ⟨fun _ => rfl, ?_, h.hosted, h.quiet, ?_⟩
    · rintro (ht | ⟨d, ht⟩)
      · exact hcancel (hv.trans ht)
      · cases ht
    · intro report hreport
      obtain ⟨p, hp, hsucc⟩ := h.reported report hreport
      refine ⟨p, hp, fun hst => ⟨(hsucc hst).1, fun hsome => ?_⟩⟩
      refine ((hsucc hst).2 hsome).imp_right fun hint => ?_
      rw [hnone] at hint
      cases hint

/-- The seam. -/
theorem RunOk.settle (h : RunOk s i run) {p : Produced} (hp : run.produced = some p)
    (hstage : run.stage = .seam) : RunOk s i (run.settle p) := by
  have hquiet := h.quiet (by rw [hstage]; decide) (by rw [hstage]; decide)
  unfold AgentRun.settle
  split
  next hlost =>
    refine ⟨h.ended, h.told, h.hosted, fun _ hd => absurd rfl hd, ?_⟩
    intro report hreport
    replace hreport : run.report = some report := hreport
    rw [hquiet.2] at hreport
    cases hreport
  next hcancelled =>
    refine ⟨h.ended, h.told, h.hosted, fun hs _ => absurd rfl hs, ?_⟩
    rintro report ⟨⟩
    exact ⟨p, hp, fun _ => ⟨rfl, fun _ => .inr (settlement_eq_settleOnly.1 hcancelled)⟩⟩
  next =>
    split_ifs with hsome
    · exact ⟨h.ended, h.told, h.hosted, fun _ _ => hquiet, h.reported⟩
    · refine ⟨h.ended, h.told, h.hosted, fun hs _ => absurd rfl hs, ?_⟩
      rintro report ⟨⟩
      exact ⟨p, hp, fun _ => ⟨rfl, fun hsome' => absurd hsome' hsome⟩⟩

theorem stoppedIn_after {now : Time} {e : Effect} {id : String} (h : StoppedIn s.queue.table id) :
    StoppedIn (s.after now i e).queue.table id := by
  show StoppedIn (e.call.elim s.queue _).table id
  cases e.call with
  | none => exact h
  | some op => exact stoppedIn_exec h

/-- An action that calls no connector. -/
theorem RunOk.after {now : Time} {e : Effect} (h : RunOk s i e.run) (hno : e.connected = none) :
    RunOk (s.after now i e) i e.run := by
  have hdel : (s.after now i e).delivered = s.delivered := by
    show s.delivered ++ (e.connected.map (i, ·)).toList = _
    rw [hno]
    exact List.append_nil _
  refine h.elsewhere (fun id => stoppedIn_after) (fun d hd => ?_) fun hmem => ?_
  · rw [hdel]
    exact hd
  · rw [hdel] at hmem
    exact hmem

/-- The connector of a run is called, and reported of. -/
theorem RunOk.deliver (h : RunOk s i run) {p : Produced} (hp : run.produced = some p)
    (now : Time) (answer : Except String Unit) :
    RunOk (s.after now i {
      run := { run with stage := .settling, report := some (propagate p answer) }
      connected := some answer.isOk }) i
      { run with stage := .settling, report := some (propagate p answer) } := by
  refine ⟨h.ended, fun ht => stoppedIn_after (h.told ht), h.hosted, fun hs _ => absurd rfl hs, ?_⟩
  rintro report ⟨⟩
  refine ⟨p, hp, fun hst => ?_⟩
  unfold propagate at hst ⊢
  cases hdel : p.delivery with
  | none => exact ⟨rfl, fun hsome => by cases hsome⟩
  | some d =>
    rw [hdel] at hst
    cases answer with
    | ok u => exact ⟨rfl, fun _ => .inl (List.mem_append_right _ (List.mem_singleton_self _))⟩
    | error e =>
      dsimp only at hst
      split at hst <;> cases hst

/-- **What an action keeps of its run.** -/
theorem RunOk.acts (h : RunOk s i run) {now : Time} {e : Effect}
    (he : run.Acts s.queue.table now e) : RunOk (s.after now i e) i e.run := by
  cases he with
  | begun hstage =>
    have hquiet := h.quiet (by rw [hstage]; decide) (by rw [hstage]; decide)
    exact RunOk.after ⟨h.ended, h.told, h.hosted, fun _ _ => hquiet, h.reported⟩ rfl
  | asked _ hwaiting =>
    refine RunOk.after ⟨fun hint => ?_, ?_, h.hosted, h.quiet, h.reported⟩ rfl
    · have hended := h.ended hint
      rw [hwaiting] at hended
      cases hended
    · rintro (ht | ⟨d, ht⟩)
      · exact h.told (.inl ht)
      · cases ht
  | served _ hasking =>
    refine RunOk.after ⟨fun hint => ?_, ?_, h.hosted, h.quiet, h.reported⟩ rfl
    · have hended := h.ended hint
      rw [hasking] at hended
      cases hended
    · rintro (ht | ⟨d, ht⟩)
      · exact h.told (.inl ht)
      · exact stoppedIn_renew (Beat.answered.inj ht)
  | heard hbeat hcancel =>
    exact RunOk.after (h.heed (fun hv => h.told (.inr (hcancel hv))) hbeat) rfl
  | called _ _ => exact RunOk.after h rfl
  | produced host hstage =>
    have hquiet := h.quiet (by rw [hstage]; decide) (by rw [hstage]; decide)
    refine RunOk.after ⟨h.ended, h.told, ?_, fun _ _ => hquiet, ?_⟩ rfl
    · rintro p ⟨⟩
      exact ⟨host, rfl⟩
    · intro report hreport
      replace hreport : run.report = some report := hreport
      rw [hquiet.2] at hreport
      cases hreport
  | settled hp hstage => exact RunOk.after (h.settle hp hstage) rfl
  | delivered answer hp _ => exact h.deliver hp now answer
  | landed _ _ _ =>
    exact RunOk.after ⟨h.ended, h.told, h.hosted, fun _ hd => absurd rfl hd, h.reported⟩ rfl

end Actions

/-! ## The invariant -/

/-- A success is to the credit of a run: of the task's last lease, which produced what is recorded
and delivered it where its action has it delivered. -/
def Credited (s : RelaySystem) (r : RelayTask) : Prop :=
  ∃ i run p, s.runs[i]? = some run ∧ run.task.id = r.id ∧
    (s.queue.grantsOf r.id).getLast? = run.task.leaseFence ∧ run.stage = .done ∧
    run.produced = some p ∧ (∃ host, p = execute host run.task) ∧
    p.report.status = .succeeded ∧ r.result = p.report.result ∧
    (p.delivery.isSome → (i, true) ∈ s.delivered)

/-- The lease a run works on. -/
def AgentRun.grant (run : AgentRun) : String × Option Time := (run.task.id, run.task.leaseFence)

/-- What holds in every state. -/
structure Inv (s : Sys.Timed Time RelaySystem) : Prop where
  fenced : RelayQueue.Fenced ⟨s.clock, s.state.queue⟩
  granted : s.state.runs.map AgentRun.grant = s.state.queue.grants.map fun g => (g.1, some g.2)
  runs : ∀ i run, s.state.runs[i]? = some run → RunOk s.state i run
  once : (s.state.delivered.map Prod.fst).Nodup
  known : ∀ d ∈ s.state.delivered, d.1 < s.state.runs.length
  credited : ∀ r ∈ s.state.queue.table.tasks, r.status = .succeeded → Credited s.state r

/-- A run that is done stays to the credit of its task. -/
theorem Credited.mono {s s' : RelaySystem} {r : RelayTask} (h : Credited s r)
    (hruns : ∀ (j : ℕ) (run : AgentRun), s.runs[j]? = some run → run.stage = .done →
      ∃ run' : AgentRun, s'.runs[j]? = some run' ∧ run'.task = run.task ∧ run'.stage = .done ∧
        run'.produced = run.produced)
    (hsub : ∀ d ∈ s.delivered, d ∈ s'.delivered)
    (hgrants : s'.queue.grantsOf r.id = s.queue.grantsOf r.id) : Credited s' r := by
  obtain ⟨i, run, p, hrun, hid, hlast, hdone, hp, hhost, hst, hresult, hdel⟩ := h
  obtain ⟨run', hrun', htask, hdone', hp'⟩ := hruns i run hrun hdone
  refine ⟨i, run', p, hrun', ?_, ?_, hdone', hp'.trans hp, ?_, hst, hresult, fun hsome =>
    hsub _ (hdel hsome)⟩
  · rw [htask]
    exact hid
  · rw [hgrants, htask]
    exact hlast
  · rw [htask]
    exact hhost

theorem init_inv {s : Sys.Timed Time RelaySystem} (h : RelaySystem.Init s) : Inv s where
  fenced := RelayQueue.fenced_init ⟨h.grants, fun r hr => by
    have hr' : r ∈ s.state.queue.table.tasks := hr
    rw [h.tasks] at hr'
    exact absurd hr' List.not_mem_nil⟩
  granted := by
    rw [h.runs, h.grants]
    rfl
  runs := fun i run hrun => by
    rw [h.runs, List.getElem?_nil] at hrun
    cases hrun
  once := by
    rw [h.delivered]
    exact List.nodup_nil
  known := fun d hd => by
    rw [h.delivered] at hd
    exact absurd hd List.not_mem_nil
  credited := fun r hr => by
    rw [h.tasks] at hr
    exact absurd hr List.not_mem_nil

theorem exec_clock (now : Time) (op : RelayOp) (q : RelayQueue) :
    RelayQueue.exec now op q = ⟨now, (RelayQueue.exec now op q).state⟩ := by
  cases op <;> rfl

theorem fenced_exec {clock now : Time} {q : RelayQueue} (op : RelayOp) (hclock : clock ≤ now)
    (h : RelayQueue.Fenced ⟨clock, q⟩) :
    RelayQueue.Fenced ⟨now, (RelayQueue.exec now op q).state⟩ := by
  rw [← exec_clock]
  exact RelayQueue.fenced_step _ (now, op) _ ⟨hclock, rfl⟩ h

/-- The runs that a call begins are those of the leases it grants. -/
theorem newRuns_grant (op : RelayOp) (now : Time) (q : RelayQueue) :
    (newRuns op now q.table).map AgentRun.grant =
      ((q.table.tasks.filter fun r => decide (r.id ∈ RelayOp.leases op now q.table)).map
        fun r => (r.id, now)).map fun g => (g.1, some g.2) := by
  cases op with
  | lease device capabilities leaseSecs max =>
    simp only [newRuns, RelayTable.lease, RelayOp.leases, List.map_map]
    refine List.map_congr_left fun r hr => ?_
    have hin : r.id ∈ q.table.leaseIds now capabilities max := by
      simpa using (List.mem_filter.1 hr).2
    simp [hin, RelayTable.leaseRow, AgentRun.grant]
  | _ => simp [newRuns, RelayOp.leases]

/-- A run that has just begun. -/
theorem runOk_new {s : RelaySystem} {i : ℕ} {task : RelayTask}
    (h : i ∉ s.delivered.map Prod.fst) : RunOk s i { task } where
  ended := fun hne => absurd rfl hne
  told := by
    rintro (ht | ⟨d, ht⟩) <;> cases ht
  hosted := fun p hp => by cases hp
  quiet := fun _ _ => ⟨h, rfl⟩
  reported := fun report hreport => by cases hreport

theorem mem_newRuns {op : RelayOp} {now : Time} {table : RelayTable} {run : AgentRun}
    (h : run ∈ newRuns op now table) : ∃ task, run = { task } := by
  unfold newRuns at h
  split at h
  · obtain ⟨task, -, rfl⟩ := List.mem_map.1 h
    exact ⟨task, rfl⟩
  · exact absurd h List.not_mem_nil

/-- A call that no run makes keeps the invariant. -/
theorem call_inv {s : Sys.Timed Time RelaySystem} {now : Time} {op : RelayOp}
    (hclock : s.clock ≤ now) (hop : RelayOp.Unheld op) (h : Inv s) :
    Inv (RelaySystem.exec now (.call op) s.state) where
  fenced := fenced_exec op hclock h.fenced
  granted := by
    show (s.state.runs ++ newRuns op now s.state.queue.table).map AgentRun.grant =
      (RelayQueue.exec now op s.state.queue).state.grants.map _
    rw [RelayQueue.exec_grants, List.map_append, List.map_append, h.granted, newRuns_grant]
  runs := by
    intro i run hrun
    replace hrun : (s.state.runs ++ newRuns op now s.state.queue.table)[i]? = some run := hrun
    by_cases hi : i < s.state.runs.length
    · rw [List.getElem?_append_left hi] at hrun
      exact (h.runs i run hrun).elsewhere (fun id => stoppedIn_exec) (fun _ hd => hd) fun hm => hm
    · rw [List.getElem?_append_right (Nat.le_of_not_lt hi)] at hrun
      obtain ⟨task, rfl⟩ := mem_newRuns (List.mem_of_getElem? hrun)
      refine runOk_new fun hmem => ?_
      obtain ⟨d, hd, rfl⟩ := List.mem_map.1 hmem
      exact hi (h.known d hd)
  once := h.once
  known := by
    intro d hd
    have hlt := h.known d hd
    show d.1 < (s.state.runs ++ newRuns op now s.state.queue.table).length
    rw [List.length_append]
    omega
  credited := by
    intro r hr hst
    rcases succeeded_exec hr hst with hold | ⟨fence, result, rfl, -⟩
    · refine (h.credited r hold hst).mono (fun j run hrun hdone => ⟨run, ?_, rfl, hdone, rfl⟩)
        (fun _ hd => hd) (succeeded_stays hold hst).2
      show (s.state.runs ++ newRuns op now s.state.queue.table)[j]? = some run
      rw [List.getElem?_append_left (List.getElem?_eq_some_iff.1 hrun).1]
      exact hrun
    · exact hop.elim

/-- A settle that was asked for by a report. -/
theorem outcome_succeeded {report : RunReport} {result : Json}
    (h : report.outcome = .succeeded result) :
    report.status = .succeeded ∧ report.result = result := by
  unfold RunReport.outcome at h
  split at h
  next hst => exact ⟨hst, RelayOutcome.succeeded.inj h⟩
  · cases h
  · cases h

section After

variable {s : RelaySystem} {now : Time} {i : ℕ} {run : AgentRun} {e : Effect}

theorem after_call {op : RelayOp} (h : e.call = some op) :
    (s.after now i e).queue = (RelayQueue.exec now op s.queue).state := by
  show e.call.elim s.queue _ = _
  rw [h]
  rfl

theorem after_no_call (h : e.call = none) : (s.after now i e).queue = s.queue := by
  show e.call.elim s.queue _ = _
  rw [h]
  rfl

/-- No run leases anything. -/
theorem after_grants (h : AgentRun.Kept run e) :
    (s.after now i e).queue.grants = s.queue.grants := by
  cases hop : e.call with
  | none => rw [after_no_call hop]
  | some op =>
    rw [after_call hop, RelayQueue.exec_grants, h.unleased op hop]
    simp

/-- What is done stays done, and keeps its result. -/
theorem after_done (h : AgentRun.Kept run e) (hrun : s.runs[i]? = some run) (j : ℕ)
    (run' : AgentRun) (hrun' : s.runs[j]? = some run') (hdone : run'.stage = .done) :
    ∃ run'' : AgentRun, (s.after now i e).runs[j]? = some run'' ∧ run''.task = run'.task ∧
      run''.stage = .done ∧ run''.produced = run'.produced := by
  show ∃ run'' : AgentRun, (s.runs.set i e.run)[j]? = some run'' ∧ _
  by_cases hij : i = j
  · subst hij
    rw [hrun] at hrun'
    cases hrun'
    exact ⟨e.run, List.getElem?_set_self (List.getElem?_eq_some_iff.1 hrun).1, h.task, h.done hdone⟩
  · rw [List.getElem?_set_ne hij]
    exact ⟨run', hrun', rfl, hdone, rfl⟩

theorem after_granted (h : AgentRun.Kept run e) (hrun : s.runs[i]? = some run) :
    (s.after now i e).runs.map AgentRun.grant = s.runs.map AgentRun.grant := by
  refine List.ext_getElem? fun j => ?_
  show ((s.runs.set i e.run).map AgentRun.grant)[j]? = _
  rw [List.getElem?_map, List.getElem?_map]
  by_cases hij : i = j
  · subst hij
    rw [List.getElem?_set_self (List.getElem?_eq_some_iff.1 hrun).1, hrun]
    show some (e.run.task.id, e.run.task.leaseFence) = _
    rw [h.task]
    rfl
  · rw [List.getElem?_set_ne hij]

/-- Only the acting run's connector is called. -/
theorem mem_after_delivered {j : ℕ} (hij : j ≠ i)
    (h : j ∈ (s.after now i e).delivered.map Prod.fst) : j ∈ s.delivered.map Prod.fst := by
  obtain ⟨d, hd, rfl⟩ := List.mem_map.1 h
  rcases List.mem_append.1 hd with hd | hd
  · exact List.mem_map_of_mem hd
  · obtain ⟨ok, -, rfl⟩ := Option.map_eq_some_iff.1 (Option.mem_toList.1 hd)
    exact absurd rfl hij

/-- **A settle that is recorded as a success was of the run's own result.** -/
theorem credited_landed {clock : Time} {r : RelayTask} (h : Inv ⟨clock, s⟩)
    (hrun : s.runs[i]? = some run) (he : run.Acts s.queue.table now e) {fence : Option Time}
    {result : Json} (hop : e.call = some (.settle r.id fence (.succeeded result)))
    (hresult : r.result = result) {r₀ : RelayTask} (hr₀ : r₀ ∈ s.queue.table.tasks)
    (hid : r₀.id = r.id) (hstop : ¬ r₀.Stopped)
    (hfence : ∀ f, fence = some f → r₀.leaseFence = some f) : Credited (s.after now i e) r := by
  have hok : RunOk s i run := h.runs i run hrun
  have hkept := he.kept
  have hlt := (List.getElem?_eq_some_iff.1 hrun).1
  cases he with
  | @landed f report hf hreport hstage =>
    obtain ⟨hrid, hfence', houtcome⟩ : run.task.id = r.id ∧ some f = fence ∧
        report.outcome = .succeeded result := by
      simpa using hop
    obtain ⟨hst, hres⟩ := outcome_succeeded houtcome
    obtain ⟨p, hp, hsucc⟩ := hok.reported report hreport
    obtain ⟨heq, hdel⟩ := hsucc hst
    subst heq
    refine ⟨i, _, p, List.getElem?_set_self hlt, hrid, ?_, rfl, hp, hok.hosted p hp, hst, ?_, ?_⟩
    · -- the row was under the run's own fence, which is the last one granted
      have hlast := h.fenced.fence r₀ hr₀ f (hfence f hfence'.symm)
      have hsame : (s.after now i _).queue.grants = s.queue.grants := after_grants hkept
      show (((s.after now i _).queue.grants.filter _).map _).getLast? = run.task.leaseFence
      rw [hsame, hf, ← hid]
      exact hlast
    · rw [hresult, ← hres]
    · intro hsome
      rcases hdel hsome with hdel | hcancelled
      · exact List.mem_append_left _ hdel
      · -- a run that was told of a cancel has a row that was asked to stop
        obtain ⟨r₁, hr₁, hid₁, hstop₁⟩ := hok.told (.inl hcancelled)
        have heq : r₁ = r₀ := s.queue.table.eq_of_id hr₁ hr₀ (by rw [hid₁, hrid, hid])
        exact absurd (heq ▸ hstop₁) hstop
  | called _ hno => exact absurd (Option.some.inj hop) (hno _ _ _)
  | served _ _ => cases hop
  | _ => cases hop

end After

/-- An action of a run keeps the invariant. -/
theorem run_inv {s : RelaySystem} {clock now : Time} {i : ℕ} {run : AgentRun} {e : Effect}
    (hclock : clock ≤ now) (hrun : s.runs[i]? = some run)
    (he : run.Acts s.queue.table now e) (h : Inv ⟨clock, s⟩) : Inv ⟨now, s.after now i e⟩ where
  fenced := by
    show RelayQueue.Fenced ⟨now, (s.after now i e).queue⟩
    cases hop : e.call with
    | none =>
      rw [after_no_call hop]
      exact ⟨h.fenced.fence, fun g hg => (h.fenced.past g hg).trans hclock⟩
    | some op =>
      rw [after_call hop]
      exact fenced_exec op hclock h.fenced
  granted := by
    show (s.after now i e).runs.map _ = (s.after now i e).queue.grants.map _
    rw [after_granted he.kept hrun, after_grants he.kept]
    exact h.granted
  runs := by
    intro j run' hrun'
    replace hrun' : (s.runs.set i e.run)[j]? = some run' := hrun'
    by_cases hij : i = j
    · subst hij
      rw [List.getElem?_set_self (List.getElem?_eq_some_iff.1 hrun).1] at hrun'
      cases hrun'
      exact RunOk.acts (h.runs i run hrun) he
    · rw [List.getElem?_set_ne hij] at hrun'
      exact (h.runs j run' hrun').elsewhere (fun id => stoppedIn_after)
        (fun d hd => List.mem_append_left _ hd) (mem_after_delivered (Ne.symm hij))
  once := by
    show ((s.delivered ++ (e.connected.map (i, ·)).toList).map Prod.fst).Nodup
    cases hconn : e.connected with
    | none =>
      rw [Option.map_none, Option.toList_none, List.append_nil]
      exact h.once
    | some ok =>
      have hstage := he.kept.connected (by rw [hconn]; exact Option.some_ne_none _)
      have hquiet := (h.runs i run hrun).quiet (by rw [hstage]; decide) (by rw [hstage]; decide)
      rw [Option.map_some, Option.toList_some, List.map_append, List.nodup_append]
      refine ⟨h.once, List.nodup_singleton _, fun a ha b hb hab => hquiet.1 ?_⟩
      have hb' : b = i := List.mem_singleton.1 hb
      rw [hab, hb'] at ha
      exact ha
  known := by
    intro d hd
    show d.1 < (s.runs.set i e.run).length
    rw [List.length_set]
    rcases List.mem_append.1 hd with hd | hd
    · exact h.known d hd
    · obtain ⟨ok, -, rfl⟩ := Option.map_eq_some_iff.1 (Option.mem_toList.1 hd)
      exact (List.getElem?_eq_some_iff.1 hrun).1
  credited := by
    intro r hr hst
    replace hr : r ∈ (s.after now i e).queue.table.tasks := hr
    have hsub : ∀ d ∈ s.delivered, d ∈ (s.after now i e).delivered := fun d hd =>
      List.mem_append_left _ hd
    have hgrants : (s.after now i e).queue.grantsOf r.id = s.queue.grantsOf r.id := by
      unfold RelayQueue.grantsOf
      rw [after_grants he.kept]
    cases hop : e.call with
    | none =>
      rw [after_no_call hop] at hr
      exact (h.credited r hr hst).mono (after_done he.kept hrun) hsub hgrants
    | some op =>
      rw [after_call hop] at hr
      rcases succeeded_exec hr hst with hold | ⟨fence, result, rfl, hresult, r₀, hr₀, hid, hstop, hf⟩
      · exact (h.credited r hold hst).mono (after_done he.kept hrun) hsub hgrants
      · exact credited_landed h hrun he hop hresult hr₀ hid hstop hf

theorem exec_run {s : RelaySystem} {now : Time} {i : ℕ} {a : RunAction} {run : AgentRun}
    {e : Effect} (hrun : s.runs[i]? = some run) (he : run.act s.queue.table now a = some e) :
    RelaySystem.exec now (.run i a) s = ⟨now, s.after now i e⟩ := by
  dsimp only [RelaySystem.exec]
  rw [hrun]
  dsimp only
  rw [he]

theorem step_inv (s : Sys.Timed Time RelaySystem) (l : Time × SystemAction)
    (s' : Sys.Timed Time RelaySystem) (hstep : RelaySystem.Step s l s') (h : Inv s) : Inv s' := by
  rcases l with ⟨now, op | ⟨i, a⟩⟩
  · obtain ⟨⟨hclock, rfl⟩, hop⟩ := hstep
    exact call_inv hclock hop h
  · obtain ⟨⟨hclock, rfl⟩, run, e, hrun, he⟩ := hstep
    show Inv (RelaySystem.exec now (.run i a) s.state)
    rw [exec_run hrun he]
    exact run_inv hclock hrun (AgentRun.acts_of_act he) h

theorem inv_run {s s' : Sys.Timed Time RelaySystem} {ls : List (Time × SystemAction)}
    (hinit : RelaySystem.Init s) (hrun : Sys.Run RelaySystem.Step s ls s') : Inv s' :=
  hrun.invariant (init_inv hinit) step_inv

/-! ## A sample -/

/-- Nothing is enqueued, and nothing leased. -/
def sampleStart : Sys.Timed Time RelaySystem where
  clock := 0
  state :=
    { queue := { table := ⟨[], List.nodup_nil⟩, grants := [] }, runs := [], delivered := [] }

theorem sampleStart_init : RelaySystem.Init sampleStart := ⟨rfl, rfl, rfl, rfl⟩

/-- The state that actions lead to. -/
def leadsTo (s : Sys.Timed Time RelaySystem) (ls : List (Time × SystemAction)) :
    Sys.Timed Time RelaySystem :=
  ls.foldl (fun s l => RelaySystem.exec l.1 l.2 s.state) s

/-- Actions that can be taken one after the other are a run. -/
theorem run_leadsTo {s : Sys.Timed Time RelaySystem} {ls : List (Time × SystemAction)}
    (h : Sys.Enabled (fun s l => RelaySystem.exec l.1 l.2 s.state)
      (fun s l => s.clock ≤ l.1 ∧ RelaySystem.Ready s l) s ls) :
    Sys.Run RelaySystem.Step s ls (leadsTo s ls) :=
  .of_enabled _ _ _ (fun _ _ hready => ⟨⟨hready.1, rfl⟩, hready.2⟩) s ls h

/-- A task that is leased and begun. -/
def sampleLease : List (Time × SystemAction) :=
  [(0, .call (.enqueue
      { id := "t", projectId := "p", actionType := "app/ask", payload := .obj [("who", .str "me")] })),
    (0, .call (.lease "d" [] 60 1)), (1, .run 0 .begin)]

/-- It is renewed, run, delivered and reported. -/
def sampleDelivery : List (Time × SystemAction) :=
  sampleLease ++ [(2, .run 0 .ask), (2, .run 0 .serve), (3, .run 0 (.hear "")),
    (4, .run 0 (.produce sampleHost)), (5, .run 0 .seam), (6, .run 0 (.deliver (.ok ()))),
    (7, .run 0 .land)]

/-- **A lease is delivered once at most**: in every run, whatever is lost, late or repeated, no lease
that was granted has its connector called twice. -/
theorem deliveries_once {s s' : Sys.Timed Time RelaySystem} {ls : List (Time × SystemAction)}
    (hinit : RelaySystem.Init s) (hrun : Sys.Run RelaySystem.Step s ls s') :
    (s'.state.delivered.map Prod.fst).Nodup ∧
      ∀ d ∈ s'.state.delivered, ∃ g run, s'.state.queue.grants[d.1]? = some g ∧
        s'.state.runs[d.1]? = some run ∧ run.task.id = g.1 ∧ run.task.leaseFence = some g.2 := by
  have hinv := inv_run hinit hrun
  refine ⟨hinv.once, fun d hd => ?_⟩
  have hlt := hinv.known d hd
  have hrun : s'.state.runs[d.1]? = some s'.state.runs[d.1] := List.getElem?_eq_getElem hlt
  have hgrant : (s'.state.runs.map AgentRun.grant)[d.1]? =
      (s'.state.queue.grants.map fun g => (g.1, some g.2))[d.1]? := by rw [hinv.granted]
  rw [List.getElem?_map, List.getElem?_map, hrun] at hgrant
  obtain ⟨g, hg, hpair⟩ := Option.map_eq_some_iff.1 hgrant.symm
  obtain ⟨hid, hfence⟩ := Prod.mk.inj hpair
  exact ⟨g, _, hg, hrun, hid.symm, hfence.symm⟩

theorem deliveries_once_sample :
    let s' := leadsTo sampleStart sampleDelivery
    s'.state.delivered = [(0, true)] ∧ (s'.state.delivered.map Prod.fst).Nodup ∧
      ∀ d ∈ s'.state.delivered, ∃ g run, s'.state.queue.grants[d.1]? = some g ∧
        s'.state.runs[d.1]? = some run ∧ run.task.id = g.1 ∧ run.task.leaseFence = some g.2 :=
  ⟨by decide +kernel, deliveries_once sampleStart_init (run_leadsTo (by decide +kernel))⟩

/-- **A recorded success was delivered**: it was reported by the run of the task's last lease, it is
what that run produced on its device, and where the action declares a connector, the connector had
taken it before. -/
theorem succeeded_delivered {s s' : Sys.Timed Time RelaySystem} {ls : List (Time × SystemAction)}
    (hinit : RelaySystem.Init s) (hrun : Sys.Run RelaySystem.Step s ls s') {r : RelayTask}
    (hr : r ∈ s'.state.queue.table.tasks) (hst : r.status = .succeeded) :
    ∃ i run host action, s'.state.runs[i]? = some run ∧ run.task.id = r.id ∧
      (s'.state.queue.grantsOf r.id).getLast? = run.task.leaseFence ∧
      load host.files host.actionsDir run.task.actionType = .ok action ∧
      run.produced = some (execute host run.task) ∧
      r.result = (execute host run.task).report.result ∧
      (action.spec.connector.isSome → (i, true) ∈ s'.state.delivered) := by
  obtain ⟨i, run, p, hrunᵢ, hid, hlast, -, hp, ⟨host, rfl⟩, hstatus, hresult, hdel⟩ :=
    (inv_run hinit hrun).credited r hr hst
  obtain ⟨action, hload, hconnector⟩ := execute_connector hstatus
  refine ⟨i, run, host, action, hrunᵢ, hid, hlast, hload, hp, hresult, fun hsome => hdel ?_⟩
  rw [hconnector]
  exact hsome

theorem succeeded_delivered_sample :
    let s' := leadsTo sampleStart sampleDelivery
    ∃ r ∈ s'.state.queue.table.tasks, r.status = .succeeded ∧
      ∃ i run host action, s'.state.runs[i]? = some run ∧ run.task.id = r.id ∧
        (s'.state.queue.grantsOf r.id).getLast? = run.task.leaseFence ∧
        load host.files host.actionsDir run.task.actionType = .ok action ∧
        run.produced = some (execute host run.task) ∧
        r.result = (execute host run.task).report.result ∧
        (action.spec.connector.isSome → (i, true) ∈ s'.state.delivered) := by
  intro s'
  have hst : ∃ r ∈ s'.state.queue.table.tasks, r.status = .succeeded := by decide +kernel
  obtain ⟨r, hr, hst⟩ := hst
  exact ⟨r, hr, hst,
    succeeded_delivered sampleStart_init (run_leadsTo (by decide +kernel)) hr hst⟩

/-! ## A cancel that is heard of -/

/-- Whatever its body, the answer stops the run that hears it. -/
def Interrupting (held : LeaseHeld) : Prop :=
  ∀ body, (classify (.ok (leaseAnswer body held))).interrupt ≠ none

/-- **After a cancel every renewal is answered with a stop**, whether the run still holds the task or
not. -/
theorem interrupting_renewal {table : RelayTable} {now : Time} {run : AgentRun} {fence : Time}
    (h : StoppedIn table run.task.id) : Interrupting (run.renewal table now fence) := by
  intro body
  rw [interrupt_leaseAnswer]
  obtain ⟨r, hr, hid, hstop⟩ := h
  unfold AgentRun.renewal RelayTable.renew RelayTable.heldAnswer
  cases hfind : table.tasks.find? (RelayTable.holds run.task.id fence) with
  | none =>
    cases table.get none run.task.id <;> exact Option.some_ne_none _
  | some r' =>
    have hholds := RelayTable.holds_iff.1 (List.find?_some hfind)
    have heq : r' = r := table.eq_of_id (List.mem_of_find?_eq_some hfind) hr
      (hholds.1.trans hid.symm)
    subst heq
    have hcancelling : r'.status = .cancelling := by
      rcases hstop with hc | hc
      · exact hc
      · have hlive := hholds.2.2
        rw [hc] at hlive
        cases hlive
    simp [hcancelling]

/-- What one step of the system is to one run: nothing, or its own action. -/
theorem step_run {s s' : Sys.Timed Time RelaySystem} {l : Time × SystemAction} {i : ℕ}
    {run : AgentRun} (hstep : RelaySystem.Step s l s') (hrun : s.state.runs[i]? = some run) :
    (∃ a e, l.2 = .run i a ∧ run.act s.state.queue.table l.1 a = some e ∧
      s'.state = s.state.after l.1 i e) ∨
    (∀ a, l.2 ≠ .run i a) ∧ s'.state.runs[i]? = some run ∧
      (i ∈ s'.state.delivered.map Prod.fst → i ∈ s.state.delivered.map Prod.fst) := by
  rcases l with ⟨now, op | ⟨j, a⟩⟩
  · obtain ⟨⟨-, rfl⟩, -⟩ := hstep
    refine .inr ⟨fun a ha => (by cases ha), ?_, fun h => h⟩
    show (s.state.runs ++ newRuns op now s.state.queue.table)[i]? = some run
    rw [List.getElem?_append_left (List.getElem?_eq_some_iff.1 hrun).1]
    exact hrun
  · obtain ⟨⟨-, rfl⟩, run', e, hrun', he⟩ := hstep
    have hexec := exec_run hrun' he
    by_cases hij : i = j
    · subst hij
      rw [hrun] at hrun'
      cases hrun'
      exact .inl ⟨a, e, rfl, he, congrArg Sys.Timed.state hexec⟩
    · refine .inr ⟨fun a' ha => hij ?_, ?_, ?_⟩
      · cases ha
        rfl
      · rw [show (RelaySystem.exec now (.run j a) s.state).state = s.state.after now j e from
          congrArg Sys.Timed.state hexec]
        show (s.state.runs.set j e.run)[i]? = some run
        rw [List.getElem?_set_ne (Ne.symm hij)]
        exact hrun
      · rw [show (RelaySystem.exec now (.run j a) s.state).state = s.state.after now j e from
          congrArg Sys.Timed.state hexec]
        exact mem_after_delivered hij

/-- A run that knows of the cancel, or will from the next answer it hears; `hears` says whether it
has heard one. -/
def Warned (s : RelaySystem) (i : ℕ) (hears : Prop) : Prop :=
  ∃ run, s.runs[i]? = some run ∧ StoppedIn s.queue.table run.task.id ∧
    (run.interrupt ≠ none ∨ ¬ hears ∧ ∀ held, run.beat = .answered held → Interrupting held)

/-- A run that was interrupted and does not deliver. -/
def Barred (s : RelaySystem) (i : ℕ) : Prop :=
  i ∉ s.delivered.map Prod.fst ∧
    ∃ run, s.runs[i]? = some run ∧ run.interrupt ≠ none ∧ run.stage ≠ .delivering

section Cancel

variable {s s' : Sys.Timed Time RelaySystem} {l : Time × SystemAction} {i : ℕ}

theorem stoppedIn_step (hstep : RelaySystem.Step s l s') {id : String}
    (h : StoppedIn s.state.queue.table id) : StoppedIn s'.state.queue.table id := by
  rcases l with ⟨now, op | ⟨j, a⟩⟩
  · obtain ⟨⟨-, rfl⟩, -⟩ := hstep
    exact stoppedIn_exec h
  · obtain ⟨⟨-, rfl⟩, run, e, hrun, he⟩ := hstep
    rw [show (RelaySystem.exec now (.run j a) s.state).state = s.state.after now j e from
      congrArg Sys.Timed.state (exec_run hrun he)]
    exact stoppedIn_after h

/-- What interrupted a run stays. -/
theorem interrupt_acts {run : AgentRun} {table : RelayTable} {now : Time} {e : Effect}
    (he : run.Acts table now e) (hended : run.interrupt ≠ none → run.beat = .ended)
    (h : run.interrupt ≠ none) : e.run.interrupt ≠ none := by
  cases he with
  | heard hbeat _ => exact absurd (hended h) hbeat
  | settled _ _ =>
    unfold AgentRun.settle
    split
    · exact h
    · exact h
    · split_ifs <;> exact h
  | _ => exact h

theorem heed_beat (run : AgentRun) (v : Verdict) (held : LeaseHeld) :
    (run.heed v).beat ≠ .answered held := by
  unfold AgentRun.heed
  split <;> exact fun h => by cases h

theorem settle_beat (run : AgentRun) (p : Produced) : (run.settle p).beat = run.beat := by
  unfold AgentRun.settle
  split
  · rfl
  · rfl
  · split_ifs <;> rfl

/-- An action of a run whose task was asked to stop: it is interrupted, or it hears nothing. -/
theorem warned_act {run : AgentRun} {table : RelayTable} {now : Time} {a : RunAction} {e : Effect}
    (hstop : StoppedIn table run.task.id)
    (hbeat : ∀ held, run.beat = .answered held → Interrupting held)
    (he : run.act table now a = some e) (hnone : e.run.interrupt = none) :
    (∀ body, a ≠ .hear body) ∧ ∀ held, e.run.beat = .answered held → Interrupting held := by
  cases a with
  | serve =>
    obtain ⟨fence, -, he⟩ := Option.bind_eq_some_iff.1 he
    split_ifs at he
    cases he
    refine ⟨fun body hb => (by cases hb), ?_⟩
    rintro held ⟨⟩
    exact interrupting_renewal hstop
  | hear body =>
    dsimp only [AgentRun.act] at he
    split at he
    next held hanswered =>
      cases he
      have hint := hbeat held hanswered body
      unfold AgentRun.heed at hnone
      split at hnone
      · cases hnone
      next hv => exact absurd hv hint
    · cases he
  | fail answer =>
    dsimp only [AgentRun.act] at he
    split_ifs at he
    cases he
    exact ⟨fun body hb => (by cases hb), fun held hh => absurd hh (heed_beat _ _ _)⟩
  | seam =>
    obtain ⟨p, -, he⟩ := Option.bind_eq_some_iff.1 he
    split_ifs at he
    cases he
    refine ⟨fun body hb => (by cases hb), ?_⟩
    rw [settle_beat]
    exact hbeat
  | ask =>
    dsimp only [AgentRun.act] at he
    split_ifs at he
    cases he
    exact ⟨fun body hb => (by cases hb), fun held hh => by cases hh⟩
  | land =>
    obtain ⟨fence, -, he⟩ := Option.bind_eq_some_iff.1 he
    obtain ⟨report, -, he⟩ := Option.bind_eq_some_iff.1 he
    split_ifs at he
    cases he
    exact ⟨fun body hb => (by cases hb), hbeat⟩
  | begin | produce _ =>
    dsimp only [AgentRun.act] at he
    split_ifs at he
    cases he
    exact ⟨fun body hb => (by cases hb), hbeat⟩
  | late | progress _ | deliver _ =>
    obtain ⟨x, -, he⟩ := Option.bind_eq_some_iff.1 he
    split_ifs at he
    cases he
    exact ⟨fun body hb => (by cases hb), hbeat⟩

/-- A step leaves a warned run warned, unless it hears of the cancel. -/
theorem warned_step {hears : Prop} (hstep : RelaySystem.Step s l s') (hinv : Inv s)
    (h : Warned s.state i hears) :
    Warned s'.state i (hears ∨ ∃ body, l.2 = .run i (.hear body)) := by
  obtain ⟨run, hrun, hstop, hwarned⟩ := h
  rcases step_run hstep hrun with ⟨a, e, hl, he, hs'⟩ | ⟨hother, hrun', -⟩
  · have hacts := AgentRun.acts_of_act he
    have hended := (hinv.runs i run hrun).ended
    refine ⟨e.run, ?_, ?_, ?_⟩
    · rw [hs']
      exact List.getElem?_set_self (List.getElem?_eq_some_iff.1 hrun).1
    · rw [hacts.kept.task]
      exact stoppedIn_step hstep hstop
    · rcases hwarned with hint | ⟨hnot, hbeat⟩
      · exact .inl (interrupt_acts hacts hended hint)
      · by_cases hnone : e.run.interrupt = none
        · right
          obtain ⟨hnohear, hbeat'⟩ := warned_act hstop hbeat he hnone
          refine ⟨?_, hbeat'⟩
          rintro (hh | ⟨body, hbody⟩)
          · exact hnot hh
          · rw [hl] at hbody
            cases hbody
            exact hnohear body rfl
        · exact .inl hnone
  · refine ⟨run, hrun', stoppedIn_step hstep hstop, hwarned.imp_right fun hw => ⟨?_, hw.2⟩⟩
    rintro (hh | ⟨body, hbody⟩)
    · exact hw.1 hh
    · exact hother _ hbody

/-- An interrupted run never comes to deliver. -/
theorem barred_step (hstep : RelaySystem.Step s l s') (hinv : Inv s) (h : Barred s.state i) :
    Barred s'.state i := by
  obtain ⟨hnot, run, hrun, hint, hstage⟩ := h
  rcases step_run hstep hrun with ⟨a, e, -, he, hs'⟩ | ⟨-, hrun', hdel⟩
  · have hacts := AgentRun.acts_of_act he
    rw [hs']
    refine ⟨?_, e.run, List.getElem?_set_self (List.getElem?_eq_some_iff.1 hrun).1,
      interrupt_acts hacts (hinv.runs i run hrun).ended hint, ?_⟩
    · have hno : e.connected = none := by
        by_contra hne
        exact hstage (hacts.kept.connected hne)
      show i ∉ (s.state.delivered ++ (e.connected.map (i, ·)).toList).map Prod.fst
      rw [hno, Option.map_none, Option.toList_none, List.append_nil]
      exact hnot
    · cases hacts with
      | heard _ _ =>
        rw [show (AgentRun.heed run _).stage = run.stage from AgentRun.heed_stage _ _]
        exact hstage
      | settled _ _ =>
        unfold AgentRun.settle
        split
        · exact fun hd => by cases hd
        · exact fun hd => by cases hd
        next hnone => exact absurd (settlement_eq_deliverAndSettle.1 hnone) hint
      | asked _ _ | served _ _ | called _ _ => exact hstage
      | _ => exact fun hd => by cases hd
  · exact ⟨fun hmem => hnot (hdel hmem), run, hrun', hint, hstage⟩

end Cancel

/-- **A cancel that is heard of before the seam prevents delivery.** Take any state in which a task
was asked to stop and a run of it has no answer waiting.  If that run hears the queue once more
before it decides what becomes of its result, its connector is never called. -/
theorem cancelled_not_delivered {s₀ s s₁ s₂ : Sys.Timed Time RelaySystem}
    {ls₀ ls₁ ls₂ : List (Time × SystemAction)} (hinit : RelaySystem.Init s₀)
    (hrun₀ : Sys.Run RelaySystem.Step s₀ ls₀ s) {i : ℕ} {run run₁ : AgentRun}
    (hrun : s.state.runs[i]? = some run) (hstop : StoppedIn s.state.queue.table run.task.id)
    (hbeat : ∀ held, run.beat ≠ .answered held) (hls₁ : Sys.Run RelaySystem.Step s ls₁ s₁)
    (hheard : ∃ now body, (now, .run i (.hear body)) ∈ ls₁) (hrun₁ : s₁.state.runs[i]? = some run₁)
    (hbefore : run₁.stage = .leased ∨ run₁.stage = .executing ∨ run₁.stage = .seam)
    (hls₂ : Sys.Run RelaySystem.Step s₁ ls₂ s₂) : i ∉ s₂.state.delivered.map Prod.fst := by
  have hinv := inv_run hinit hrun₀
  -- up to `s₁` the run stays warned, and it hears of the cancel
  have hwarned : Inv s₁ ∧ Warned s₁.state i (∃ now body, (now, SystemAction.run i (.hear body)) ∈ ls₁) := by
    refine hls₁.trace_invariant
      (I := fun ls a => Inv a ∧ Warned a.state i (∃ now body, (now, .run i (.hear body)) ∈ ls))
      ⟨hinv, run, hrun, hstop, .inr ⟨?_, fun held hh => absurd hh (hbeat held)⟩⟩ ?_
    · rintro ⟨now, body, hmem⟩
      exact absurd hmem List.not_mem_nil
    · intro ls a l b hstep h
      refine ⟨step_inv a l b hstep h.1, ?_⟩
      obtain ⟨run', hrun', hstop', hw⟩ := warned_step hstep h.1 h.2
      refine ⟨run', hrun', hstop', hw.imp_right fun hno => ⟨?_, hno.2⟩⟩
      rintro ⟨now, body, hmem⟩
      rcases List.mem_append.1 hmem with hmem | hmem
      · exact hno.1 (.inl ⟨now, body, hmem⟩)
      · exact hno.1 (.inr ⟨body, congrArg Prod.snd (List.mem_singleton.1 hmem).symm⟩)
  obtain ⟨hinv₁, run', hrun', -, hint⟩ := hwarned
  rw [hrun₁] at hrun'
  cases hrun'
  have hstages : run₁.stage ≠ .delivering ∧ run₁.stage ≠ .settling ∧ run₁.stage ≠ .done := by
    rcases hbefore with h | h | h <;> rw [h] <;> decide
  have hbarred : Barred s₁.state i :=
    ⟨((hinv₁.runs i run₁ hrun₁).quiet hstages.2.1 hstages.2.2).1, run₁, hrun₁,
      hint.resolve_right fun hno => hno.1 hheard, hstages.1⟩
  exact (hls₂.invariant (I := fun a => Inv a ∧ Barred a.state i) ⟨hinv₁, hbarred⟩
    fun a l b hstep h => ⟨step_inv a l b hstep h.1, barred_step hstep h.1 h.2⟩).2.1

/-- The task is asked to stop while it is run. -/
def sampleCancel : List (Time × SystemAction) := sampleLease ++ [(2, .call (.cancel none "t"))]

/-- The run renews its lease, and hears of it. -/
def sampleHeard : List (Time × SystemAction) :=
  [(3, .run 0 .ask), (3, .run 0 .serve), (4, .run 0 (.hear ""))]

/-- It has a result, and reports. -/
def sampleReport : List (Time × SystemAction) :=
  [(5, .run 0 (.produce sampleHost)), (6, .run 0 .seam), (7, .run 0 .land)]

theorem cancelled_not_delivered_sample :
    0 ∉ (leadsTo (leadsTo (leadsTo sampleStart sampleCancel) sampleHeard)
      sampleReport).state.delivered.map Prod.fst := by
  have hrun : (leadsTo sampleStart sampleCancel).state.runs[0]?.map
      (fun run => (run.task.id, run.beat)) = some ("t", .waiting) := by decide +kernel
  have hrun₁ : (leadsTo (leadsTo sampleStart sampleCancel) sampleHeard).state.runs[0]?.map
      AgentRun.stage = some .executing := by decide +kernel
  have hstop : ∃ r ∈ (leadsTo sampleStart sampleCancel).state.queue.table.tasks,
      r.id = "t" ∧ r.status = .cancelling := by decide +kernel
  obtain ⟨run, hrun, hpair⟩ := Option.map_eq_some_iff.1 hrun
  obtain ⟨hid, hbeat⟩ := Prod.mk.inj hpair
  obtain ⟨run₁, hrun₁, hstage⟩ := Option.map_eq_some_iff.1 hrun₁
  obtain ⟨r, hr, hrid, hst⟩ := hstop
  refine cancelled_not_delivered sampleStart_init (run_leadsTo (by decide +kernel)) hrun
    ⟨r, hr, hrid.trans hid.symm, .inl hst⟩ (fun held hh => ?_) (run_leadsTo (by decide +kernel))
    ⟨4, "", by simp [sampleHeard]⟩ hrun₁ (.inr (.inl hstage)) (run_leadsTo (by decide +kernel))
  rw [hbeat] at hh
  cases hh

end LightTrack.Agent
