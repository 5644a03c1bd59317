import LightTrack.Jobs.Worker

/-! # Cancelled jobs

What each statement does to the rows, and from it what a cancel is worth.

* `JobTable.claim_cases` : a claim takes one claimable row, or none,
* `cancelled_stays_run` : while no retry is delivered to a job that was asked to stop, a cancelled
  job is never claimed again,
* `retry_restarts_cancelled` : an error that races with the cancel puts the job back in the queue.
-/

namespace LightTrack

/-! ## What the statements do -/

namespace JobTable

variable {t : JobTable} {now staleBefore : Time} {kinds : List String}

theorem create_rows (t : JobTable) (j : Job) :
    t.create j = t ∨ j.id ∉ t.rows.map Job.id ∧ (t.create j).rows = t.rows ++ [j] := by
  unfold create
  split_ifs with hid
  · exact .inl rfl
  · exact .inr ⟨hid, rfl⟩

theorem cancelRow_cases (now : Time) (project : Option String) (id : String) (j : Job) :
    cancelRow now project id j = j ∨
      (j.status = .queued ∨ j.status = .running) ∧ cancelRow now project id j =
        { j with
          status := if j.status = .queued then .cancelled else .cancelling
          updatedAt := now } := by
  unfold cancelRow
  split
  next h =>
    simp only [Bool.and_eq_true, Bool.or_eq_true, beq_iff_eq] at h
    exact .inr ⟨h.1.2, rfl⟩
  next => exact .inl rfl

theorem orphanRow_cases (now staleBefore : Time) (j : Job) :
    orphanRow now staleBefore j = j ∨
      j.status = .cancelling ∧ orphanRow now staleBefore j =
        { j with
          status := .cancelled
          updatedAt := now
          error := some JOB_ERROR_CANCEL_ORPHANED } := by
  unfold orphanRow
  split
  next h =>
    simp only [Bool.and_eq_true, beq_iff_eq] at h
    exact .inr ⟨h.1, rfl⟩
  next => exact .inl rfl

theorem orphanRow_id (now staleBefore : Time) (j : Job) : (orphanRow now staleBefore j).id = j.id := by
  unfold orphanRow
  split_ifs <;> rfl

/-- The sweep neither touches what is claimable nor makes anything claimable. -/
theorem claimable_orphanRow {j : Job}
    (h : claimable staleBefore kinds (orphanRow now staleBefore j) = true) :
    orphanRow now staleBefore j = j := by
  rcases orphanRow_cases now staleBefore j with hsame | ⟨-, hcancelled⟩
  · exact hsame
  · rw [hcancelled] at h
    simp [claimable] at h

theorem status_of_claimable {j : Job} (h : claimable staleBefore kinds j = true) :
    j.status = .queued ∨ j.status = .running := by
  simp only [claimable, Bool.and_eq_true, Bool.or_eq_true, beq_iff_eq] at h
  rcases h.1 with hqueued | ⟨hrunning, -⟩
  · exact .inl hqueued
  · exact .inr hrunning

/-- A claim sweeps the orphans, and takes one claimable row or none. -/
theorem claim_cases (t : JobTable) (now staleBefore : Time) (kinds : List String) :
    ((t.claim now staleBefore kinds).1 = none ∧
        (t.claim now staleBefore kinds).2.rows = t.rows.map (orphanRow now staleBefore)) ∨
      ∃ j ∈ t.rows, (j.status = .queued ∨ j.status = .running) ∧
        (t.claim now staleBefore kinds).1 = some (claimRow now j) ∧
        (t.claim now staleBefore kinds).2.rows = t.rows.map fun j' =>
          if j'.id = j.id then claimRow now j' else orphanRow now staleBefore j' := by
  unfold claim
  simp only
  cases hid : (t.sweepOrphans now staleBefore).claimId staleBefore kinds with
  | none => exact .inl ⟨rfl, rfl⟩
  | some id =>
    right
    rcases Option.map_eq_some_iff.1 hid with ⟨j, hhead, rfl⟩
    have hmem := List.mem_mergeSort.1 (List.mem_of_head? hhead)
    rcases List.mem_filter.1 hmem with ⟨hmem, hclaimable⟩
    rcases Keyed.mem_update.1 hmem with ⟨j₀, hj₀, rfl⟩
    have hsame := claimable_orphanRow hclaimable
    rw [hsame] at hclaimable hmem ⊢
    refine ⟨j₀, hj₀, status_of_claimable hclaimable, ?_, ?_⟩
    · exact Keyed.find_eq_some_iff.2 ⟨Keyed.mem_update.2 ⟨j₀, hmem, if_pos rfl⟩, rfl⟩
    · show (t.rows.map (orphanRow now staleBefore)).map _ = _
      rw [List.map_map]
      refine List.map_congr_left fun j' hj' => ?_
      simp only [Function.comp_apply, orphanRow_id]
      split_ifs with hid'
      · rw [t.eq_of_key hj' hj₀ hid', hsame]
      · rfl

theorem finishable_iff {id : String} {fence : Option Time} {j : Job} :
    finishable id fence j = true ↔
      j.id = id ∧ j.status.isTerminal = false ∧ ∀ f, fence = some f → j.claimedAt = some f := by
  cases fence <;> simp [finishable, and_assoc]

theorem renewable_iff {id : String} {fence : Time} {j : Job} :
    renewable id fence j = true ↔
      j.id = id ∧ j.claimedAt = some fence ∧ j.status.isHeld = true := by
  simp [renewable, and_assoc]

end JobTable

namespace JobSystem

open JobTable

/-! ## Requests -/

/-- What a finish in flight can ask for. -/
def Asks (req : FinishReq) : Prop :=
  req.status = .done ∨ req.status = .cancelled ∨ req.status = .failed ∨ req.status = .queued

theorem asks_finishReq (claim : ℕ) (run : WorkerRun) (outcome : Except String Json) :
    Asks (run.finishReq claim outcome) := by
  cases outcome with
  | ok result =>
    cases hcancelled : run.cancelled with
    | true => exact .inr (.inl (by simp [WorkerRun.finishReq, hcancelled]))
    | false => exact .inl (by simp [WorkerRun.finishReq, hcancelled])
  | error e =>
    by_cases hretry : run.job.failures + 1 < run.job.maxAttempts
    · exact .inr (.inr (.inr (if_pos hretry)))
    · exact .inr (.inr (.inl (if_neg hretry)))

/-- The finishes in flight after a step were in flight before it, or one was just sent. -/
theorem exec_sent (now : Time) (op : JobOp) (s : JobSystem) :
    (exec now op s).state.sent = s.sent ∨
      ∃ i, ∃ run : WorkerRun, ∃ outcome, s.runs[i]? = some run ∧
        (exec now op s).state.sent = s.sent ++ [run.finishReq i outcome] := by
  cases op with
  | renew i fence answered =>
    left
    rcases exec_renew now i fence answered s with hsame | ⟨run, -, -, hexec⟩
    · rw [hsame]
    · rw [hexec]
  | poll i =>
    left
    rcases exec_poll now i s with hsame | ⟨run, -, hexec⟩
    · rw [hsame]
    · rw [hexec]
  | work i outcome =>
    rcases exec_work now i outcome s with hsame | ⟨run, hrun, -, hexec⟩
    · rw [hsame]
      exact .inl rfl
    · rw [hexec]
      exact .inr ⟨i, run, outcome, hrun, rfl⟩
  | deliver k =>
    left
    rcases exec_deliver now k s with ⟨hsame, -⟩ | ⟨req, -, hexec⟩
    · rw [hsame]
    · rw [hexec]
  | _ => exact .inl rfl

theorem asks_run {s s' : Sys.Timed Time JobSystem} {ls : List (Time × JobOp)} (hinit : Init s)
    (hrun : Sys.Run Step s ls s') : ∀ req ∈ s'.state.sent, Asks req := by
  refine hrun.invariant (I := fun a => ∀ req ∈ a.state.sent, Asks req) ?_ ?_
  · intro req hreq
    rw [hinit.2.2.1] at hreq
    cases hreq
  · rintro a ⟨now, op⟩ b ⟨-, rfl⟩ h req hreq
    rcases exec_sent now op a.state with hsame | ⟨i, run, outcome, -, hsent⟩
    · rw [hsame] at hreq
      exact h req hreq
    · rw [hsent] at hreq
      rcases List.mem_append.1 hreq with hreq | hreq
      · exact h req hreq
      · rw [List.mem_singleton.1 hreq]
        exact asks_finishReq i run outcome

/-! ## After a cancel -/

/-- The job was asked to stop, or has ended. -/
def Stopped (t : JobTable) (id : String) : Prop :=
  ∃ j ∈ t.rows, j.id = id ∧ (j.status = .cancelling ∨ j.status.isTerminal = true)

/-- No finish that asks for a retry lands on a job that was asked to stop. -/
def NoRetryOnCancel (s : Sys.Timed Time JobSystem) (l : Time × JobOp) : Prop :=
  ∀ k, l.2 = .deliver k → ∀ req, s.state.sent[k]? = some req → req.status = .queued →
    ∀ j ∈ s.state.table.rows, finishable req.id req.claimedAt j = true → j.status ≠ .cancelling

/-- A job that was asked to stop is not what a claim returns. -/
theorem claim_ne_of_stopped {t : JobTable} {id : String} (h : Stopped t id) {now staleBefore : Time}
    {kinds : List String} {j : Job} (hclaim : (t.claim now staleBefore kinds).1 = some j) :
    j.id ≠ id := by
  intro hid
  rcases h with ⟨j₀, hj₀, hid₀, hst⟩
  rcases claim_cases t now staleBefore kinds with ⟨hnone, -⟩ | ⟨j₁, hj₁, hclaimable, hsome, -⟩
  · rw [hnone] at hclaim
    cases hclaim
  · have hj : claimRow now j₁ = j := Option.some.inj (hsome.symm.trans hclaim)
    have hid₁ : j₁.id = id := by rw [← hid, ← hj]; rfl
    rw [t.eq_of_key hj₁ hj₀ (hid₁.trans hid₀.symm)] at hclaimable
    rcases hclaimable with h | h <;> rcases hst with h' | h' <;>
      simp [h, JobStatus.isTerminal] at h'

/-- A rewrite of the rows keeps a stopped job stopped if it keeps its row stopped. -/
theorem Stopped.map {t : JobTable} {id : String} (h : Stopped t id) {f : Job → Job} {t' : JobTable}
    (hrows : t'.rows = t.rows.map f)
    (hf : ∀ j ∈ t.rows, j.id = id → (j.status = .cancelling ∨ j.status.isTerminal = true) →
      (f j).id = id ∧ ((f j).status = .cancelling ∨ (f j).status.isTerminal = true)) :
    Stopped t' id := by
  rcases h with ⟨j, hj, hid, hst⟩
  rcases hf j hj hid hst with ⟨hid', hst'⟩
  exact ⟨f j, hrows ▸ List.mem_map_of_mem hj, hid', hst'⟩

/-- A claim fails orphans and takes one row, and that row is another job's. -/
theorem stopped_claim {t : JobTable} {id : String} (h : Stopped t id) {now staleBefore : Time}
    {kinds : List String} : Stopped (t.claim now staleBefore kinds).2 id := by
  have horphan : ∀ j : Job, j.id = id → (j.status = .cancelling ∨ j.status.isTerminal = true) →
      (orphanRow now staleBefore j).id = id ∧ ((orphanRow now staleBefore j).status = .cancelling ∨
        (orphanRow now staleBefore j).status.isTerminal = true) := by
    intro j hid hst
    rcases orphanRow_cases now staleBefore j with hsame | ⟨-, hcancelled⟩
    · rw [hsame]
      exact ⟨hid, hst⟩
    · rw [hcancelled]
      exact ⟨hid, .inr rfl⟩
  rcases claim_cases t now staleBefore kinds with ⟨-, hrows⟩ | ⟨j₁, hj₁, -, hclaim, hrows⟩
  · exact h.map hrows fun j _ => horphan j
  · have hne : (claimRow now j₁).id ≠ id := claim_ne_of_stopped h hclaim
    refine h.map hrows ?_
    intro j _ hid hst
    rw [if_neg (hid ▸ hne.symm)]
    exact horphan j hid hst

/-- A finish that lands on a stopped job ends it, unless it asks for a retry. -/
theorem ends_of_stopped {req : FinishReq} (hasks : Asks req) {j : Job}
    (hfinish : finishable req.id req.claimedAt j = true)
    (hst : j.status = .cancelling ∨ j.status.isTerminal = true)
    (hretry : req.status = .queued → j.status ≠ .cancelling) : req.status.isTerminal = true := by
  -- an ended row is not finishable, and a stopping one is not sent back to the queue
  have hcancelling : j.status = .cancelling := by
    rcases hst with hst | hst
    · exact hst
    · rw [(finishable_iff.1 hfinish).2.1] at hst
      cases hst
  rcases hasks with hst | hst | hst | hst
  · rw [hst]
    rfl
  · rw [hst]
    rfl
  · rw [hst]
    rfl
  · exact absurd hcancelling (hretry hst)

/-- One step keeps a stopped job stopped. -/
theorem stopped_step {s s' : Sys.Timed Time JobSystem} {l : Time × JobOp} {id : String}
    (hasks : ∀ req ∈ s.state.sent, Asks req)
    (hstep : Sys.Restrict Step NoRetryOnCancel s l s') (h : Stopped s.state.table id) :
    Stopped s'.state.table id := by
  rcases l with ⟨now, op⟩
  rcases hstep with ⟨⟨-, rfl⟩, hretry⟩
  cases op with
  | enqueue id' jobType project payload =>
    show Stopped (s.state.table.create _) id
    rcases create_rows s.state.table (.enqueued id' jobType project payload now) with
      hsame | ⟨-, hrows⟩
    · rw [hsame]
      exact h
    · rcases h with ⟨j, hj, hid, hst⟩
      exact ⟨j, hrows ▸ List.mem_append_left _ hj, hid, hst⟩
  | cancel project id' =>
    refine h.map (f := cancelRow now project id') rfl ?_
    intro j _ hid hst
    rcases cancelRow_cases now project id' j with hsame | ⟨hst', -⟩
    · rw [hsame]
      exact ⟨hid, hst⟩
    · rcases hst' with hst' | hst' <;> simp [hst', JobStatus.isTerminal] at hst
  | claim staleBefore kinds => exact stopped_claim h
  | progress id' progress =>
    refine h.map rfl ?_
    intro j _ hid hst
    split_ifs
    · exact ⟨hid, hst⟩
    · exact ⟨hid, hst⟩
  | renew i fence answered =>
    rcases exec_renew now i fence answered s.state with hsame | ⟨run, -, -, hexec⟩
    · rw [hsame]
      exact h
    · rw [hexec]
      refine h.map rfl ?_
      intro j _ hid hst
      split_ifs
      · exact ⟨hid, hst⟩
      · exact ⟨hid, hst⟩
  | poll i =>
    rcases exec_poll now i s.state with hsame | ⟨run, -, hexec⟩
    · rw [hsame]
      exact h
    · rw [hexec]
      exact h
  | work i outcome =>
    rcases exec_work now i outcome s.state with hsame | ⟨run, -, -, hexec⟩
    · rw [hsame]
      exact h
    · rw [hexec]
      exact h
  | deliver k =>
    rcases exec_deliver now k s.state with ⟨hsame, -⟩ | ⟨req, hreq, hexec⟩
    · rw [hsame]
      exact h
    · rw [hexec]
      refine h.map rfl ?_
      intro j hj hid hst
      split_ifs with hfinish
      · refine ⟨hid, .inr ?_⟩
        exact ends_of_stopped (hasks req (List.mem_of_getElem? hreq)) hfinish hst
          fun hqueued => hretry k rfl req hreq hqueued j hj hfinish
      · exact ⟨hid, hst⟩

/-- A cancel that was answered leaves the job stopped. -/
theorem stopped_of_cancel {t : JobTable} {now : Time} {project : Option String} {id : String}
    (h : (t.cancel now project id).1 = some .cancelled ∨
      (t.cancel now project id).1 = some .cancelling) :
    Stopped (t.cancel now project id).2 id := by
  have hsome : ∃ j, t.get project id = some j ∧ (j.status = .queued ∨ j.status = .running) := by
    rcases h with h | h
    all_goals
      rcases Option.map_eq_some_iff.1 h with ⟨j, hget, hst⟩
      refine ⟨j, hget, ?_⟩
      cases hstatus : j.status <;> simp [hstatus] at hst ⊢
  rcases hsome with ⟨j, hget, hst⟩
  rcases Option.filter_eq_some_iff.1 hget with ⟨hfind, hproject⟩
  rcases Keyed.find_eq_some_iff.1 hfind with ⟨hj, hid⟩
  have hrow : cancelRow now project id j =
      { j with
        status := if j.status = .queued then .cancelled else .cancelling
        updatedAt := now } := by
    refine if_pos ?_
    rw [hproject]
    rcases hst with hst | hst <;> simp [hid, hst]
  refine ⟨cancelRow now project id j, List.mem_map_of_mem hj, ?_, ?_⟩
  · rw [hrow]
    exact hid
  · rw [hrow]
    rcases hst with hst | hst
    · right
      simp [hst, JobStatus.isTerminal]
    · left
      simp [hst]

/-- **A cancelled job never restarts**, in every run in which no finish that asks for a retry lands
on a job that was asked to stop: from the moment a cancel was answered `Cancelled` or `Cancelling`
the job is only ever `cancelling` or terminal, and no claim returns it. -/
theorem cancelled_stays_run {s s₁ s₂ : Sys.Timed Time JobSystem} {ls ls' : List (Time × JobOp)}
    {now : Time} {project : Option String} {id : String} (hinit : Init s)
    (hrun : Sys.Run (Sys.Restrict Step NoRetryOnCancel) s ls s₁)
    (hcancel : (s₁.state.table.cancel now project id).1 = some .cancelled ∨
      (s₁.state.table.cancel now project id).1 = some .cancelling)
    (hrun' : Sys.Run (Sys.Restrict Step NoRetryOnCancel) (exec now (.cancel project id) s₁.state)
      ls' s₂) :
    (∃ j ∈ s₂.state.table.rows, j.id = id ∧ (j.status = .cancelling ∨ j.status.isTerminal = true)) ∧
      ∀ now' staleBefore kinds j, (s₂.state.table.claim now' staleBefore kinds).1 = some j →
        j.id ≠ id := by
  have hasks : ∀ req ∈ s₁.state.sent, Asks req := asks_run hinit hrun.of_restrict
  have hstopped : Stopped s₂.state.table id := by
    refine (hrun'.invariant (I := fun a => Stopped a.state.table id ∧
      ∀ req ∈ a.state.sent, Asks req) ⟨stopped_of_cancel hcancel, hasks⟩ ?_).1
    intro a l b hstep h
    refine ⟨stopped_step h.2 hstep h.1, ?_⟩
    rcases l with ⟨now', op⟩
    rcases hstep with ⟨⟨-, rfl⟩, -⟩
    intro req hreq
    rcases exec_sent now' op a.state with hsame | ⟨i, run, outcome, -, hsent⟩
    · rw [hsame] at hreq
      exact h.2 req hreq
    · rw [hsent] at hreq
      rcases List.mem_append.1 hreq with hreq | hreq
      · exact h.2 req hreq
      · rw [List.mem_singleton.1 hreq]
        exact asks_finishReq i run outcome
  exact ⟨hstopped, fun now' staleBefore kinds j hclaim => claim_ne_of_stopped hstopped hclaim⟩

/-- No job has been enqueued yet. -/
def emptySystem : Sys.Timed Time JobSystem := ⟨0, ⟨Keyed.empty, [], [], []⟩⟩

/-- A job is enqueued and claimed. -/
def claimedOnce : List (Time × JobOp) :=
  [(1, .enqueue "j" "benchmark" none .null), (2, .claim 0 [])]

/-- The run of `claimedOnce`, and what follows. -/
def after (ls : List (Time × JobOp)) : Sys.Timed Time JobSystem :=
  (claimedOnce ++ ls).foldl (fun s l => exec l.1 l.2 s.state) emptySystem

theorem run_claimedOnce {C : Sys.Timed Time JobSystem → Time × JobOp → Prop}
    (hC : ∀ s l, (∀ k, l.2 ≠ .deliver k) → C s l) :
    Sys.Run (Sys.Restrict Step C) emptySystem claimedOnce (after []) := by
  have henqueue : ∀ k, JobOp.enqueue "j" "benchmark" none .null ≠ .deliver k := by
    intro k h
    cases h
  have hclaim : ∀ k, JobOp.claim 0 [] ≠ .deliver k := by
    intro k h
    cases h
  exact .snoc (.single ⟨⟨by decide, rfl⟩, hC _ _ henqueue⟩) ⟨⟨by decide, rfl⟩, hC _ _ hclaim⟩

/-- The worker finds the cancel and reports it. -/
theorem cancelled_stays_run_sample :
    let s := after [(3, .cancel none "j"), (4, .poll 0), (4, .work 0 (.ok .null)), (4, .deliver 0)]
    (∃ j ∈ s.state.table.rows, j.id = "j" ∧ (j.status = .cancelling ∨ j.status.isTerminal = true)) ∧
      ∀ now' staleBefore kinds j, (s.state.table.claim now' staleBefore kinds).1 = some j →
        j.id ≠ "j" := by
  intro s
  have hother : ∀ s l, (∀ k, l.2 ≠ .deliver k) → NoRetryOnCancel s l :=
    fun s l hl k hk => absurd hk (hl k)
  have hpoll : ∀ k, JobOp.poll 0 ≠ .deliver k := by
    intro k h
    cases h
  have hwork : ∀ k, JobOp.work 0 (.ok .null) ≠ .deliver k := by
    intro k h
    cases h
  refine @cancelled_stays_run emptySystem _ _ _
    [(4, .poll 0), (4, .work 0 (.ok .null)), (4, .deliver 0)] 3 none "j" ⟨rfl, rfl, rfl, rfl⟩
    (run_claimedOnce hother) (.inr (by decide +kernel)) ?_
  refine .snoc (.snoc (.single ⟨⟨by decide, rfl⟩, hother _ _ hpoll⟩)
    ⟨⟨by decide +kernel, rfl⟩, hother _ _ hwork⟩) ⟨⟨by decide +kernel, rfl⟩, ?_⟩
  -- the finish asks for `cancelled`
  intro k hk req hreq hqueued
  have hk : k = 0 := by
    injection hk with hk
    exact hk.symm
  subst hk
  have hstatus : ((after [(3, .cancel none "j"), (4, .poll 0), (4, .work 0 (.ok .null))]).state.sent[0]?).any
      (fun req => decide (req.status = .cancelled)) = true := by decide +kernel
  have hreq' : (after [(3, .cancel none "j"), (4, .poll 0),
      (4, .work 0 (.ok .null))]).state.sent[0]? = some req := hreq
  rw [hreq', Option.any_some, decide_eq_true_iff, hqueued] at hstatus
  cases hstatus

/-- **A cancelled job restarts.** Its work fails while the cancel is on its way, the worker asks for
a retry as it would have without the cancel, and the next worker is handed the job again. -/
theorem retry_restarts_cancelled :
    let s := after [(3, .cancel none "j"), (4, .work 0 (.error "case 3")), (5, .deliver 0)]
    (∃ ls, Sys.Run Step emptySystem ls s) ∧
      ((after []).state.table.cancel 3 none "j").1 = some .cancelling ∧
      (s.state.table.rows.map Job.status = [.queued]) ∧
      ((s.state.table.claim 6 0 []).1.map Job.id) = some "j" := by
  intro s
  constructor
  · exact ⟨_, Sys.Run.foldl exec_clock _ _ (by decide)⟩
  · decide +kernel

end JobSystem

end LightTrack
