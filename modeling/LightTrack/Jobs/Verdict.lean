import LightTrack.Jobs.Cancelled

/-! # One verdict per claim

The fence of a finish is the stamp of the claim it is for.  A claim or a renewal writes a stamp that
no claim has held, a finish leaves the stamp where it is, and a row that ended takes no finish.

* `Verdicts` : who holds which stamp, and which finishes took effect,
* `verdicts_step` : every step keeps it, unless a finish lands on a job that is queued again,
* `one_verdict_run` : so at most one finish takes effect for each claim,
* `retry_counts_twice` : a finish to `queued` leaves its stamp on the row, and is taken again.
-/

namespace LightTrack

namespace JobTable

/-- A finish takes the one row it may, or nothing happens. -/
theorem finish_cases (t : JobTable) (now : Time) (id : String) (status : JobStatus) (result : Json)
    (error : Option String) (fence : Option Time) :
    ((∀ r ∈ t.rows, finishable id fence r = false) ∧
        (t.finish now id status result error fence).1 ≠ .finished ∧
        (t.finish now id status result error fence).2 = t) ∨
      ∃ r ∈ t.rows, finishable id fence r = true ∧
        (t.finish now id status result error fence).1 = .finished ∧
        (t.finish now id status result error fence).2.rows =
          t.rows.map fun j => if j.id = r.id then finishRow now status result error j else j := by
  cases hany : t.rows.any (finishable id fence) with
  | false =>
    left
    -- no row matches, so the update maps each row to itself
    have hnone : ∀ r ∈ t.rows, finishable id fence r = false := by
      intro r hr
      simpa using List.any_eq_false.1 hany r hr
    refine ⟨hnone, ?_, ?_⟩
    · unfold finish
      simp only [hany]
      cases t.get none id <;> simp
    · refine Keyed.ext ?_
      show t.rows.map _ = t.rows
      rw [List.map_congr_left (g := fun j => j) fun r hr => ?_, List.map_id']
      rw [hnone r hr]
      rfl
  | true =>
    right
    rcases List.any_eq_true.1 hany with ⟨r, hr, hfinish⟩
    refine ⟨r, hr, hfinish, ?_, ?_⟩
    · unfold finish
      simp only [hany, if_true]
    · show t.rows.map _ = _
      refine List.map_congr_left fun j hj => ?_
      -- ids are unique, so the guard names one row
      have hiff : finishable id fence j = true ↔ j.id = r.id := by
        constructor
        · intro hj'
          rw [(finishable_iff.1 hj').1, (finishable_iff.1 hfinish).1]
        · intro hid
          rw [t.eq_of_key hj hr hid]
          exact hfinish
      simp only [hiff]

theorem renewLease_fst (t : JobTable) (now : Time) (id : String) (fence : Time) :
    (t.renewLease now id fence).1 = none ∨ (t.renewLease now id fence).1 = some now := by
  unfold renewLease
  simp only
  split_ifs
  · exact .inr rfl
  · exact .inl rfl

/-- If one row takes a renewal, the renewal is granted. -/
theorem renewLease_fst_of_mem {t : JobTable} {id : String} {fence : Time} {r : Job} (hr : r ∈ t.rows)
    (hrenew : renewable id fence r = true) (now : Time) :
    (t.renewLease now id fence).1 = some now :=
  if_pos (List.any_eq_true.2 ⟨r, hr, hrenew⟩)

end JobTable

namespace JobSystem

open JobTable

/-! ## Lists of runs -/

section Lists

variable {α : Type*} {l : List α} {i j : ℕ} {a b : α}

theorem getElem?_set_cases (h : (l.set i a)[j]? = some b) :
    (j = i ∧ b = a) ∨ (j ≠ i ∧ l[j]? = some b) := by
  rw [List.getElem?_set] at h
  split_ifs at h with hij hlen
  · exact .inl ⟨hij.symm, (Option.some.inj h).symm⟩
  · exact .inr ⟨fun hji => hij hji.symm, h⟩

theorem getElem?_concat_cases (h : (l ++ [a])[j]? = some b) :
    (j = l.length ∧ b = a) ∨ (j < l.length ∧ l[j]? = some b) := by
  by_cases hlt : j < l.length
  · rw [List.getElem?_append_left hlt] at h
    exact .inr ⟨hlt, h⟩
  · rw [List.getElem?_append_right (by omega), List.getElem?_singleton] at h
    split_ifs at h with hzero
    exact .inl ⟨by omega, (Option.some.inj h).symm⟩

theorem lt_length_of_getElem? (h : l[j]? = some b) : j < l.length :=
  (List.getElem?_eq_some_iff.1 h).1

end Lists

/-- The runs of `runs` are still there, with their jobs and their stamps. -/
def Grows (runs runs' : List WorkerRun) : Prop :=
  ∀ (i : ℕ) (run : WorkerRun), runs[i]? = some run →
    ∃ run' : WorkerRun, runs'[i]? = some run' ∧ run'.job = run.job ∧ run.stamps ⊆ run'.stamps

theorem Grows.refl (runs : List WorkerRun) : Grows runs runs :=
  fun _ run h => ⟨run, h, rfl, List.Subset.refl _⟩

theorem Grows.set {runs : List WorkerRun} {i : ℕ} {run run' : WorkerRun}
    (hrun : runs[i]? = some run) (hjob : run'.job = run.job) (hstamps : run.stamps ⊆ run'.stamps) :
    Grows runs (runs.set i run') := by
  intro j old hold
  by_cases hij : i = j
  · subst hij
    rw [hrun] at hold
    cases hold
    exact ⟨run', List.getElem?_set_self (lt_length_of_getElem? hrun), hjob, hstamps⟩
  · exact ⟨old, by rw [List.getElem?_set_ne hij]; exact hold, rfl, List.Subset.refl _⟩

theorem Grows.append (runs : List WorkerRun) (run : WorkerRun) : Grows runs (runs ++ [run]) := by
  intro i old hold
  refine ⟨old, ?_, rfl, List.Subset.refl _⟩
  rw [List.getElem?_append_left (lt_length_of_getElem? hold)]
  exact hold

/-! ## Stamps -/

/-- The stamps of a claim are in the past and its own, and its lease is one of them. -/
structure Leases (clock : Time) (runs : List WorkerRun) : Prop where
  past : ∀ (i : ℕ) (run : WorkerRun), runs[i]? = some run → ∀ t ∈ run.stamps, t ≤ clock
  apart : ∀ (i j : ℕ) (run run' : WorkerRun), runs[i]? = some run → runs[j]? = some run' →
    ∀ t ∈ run.stamps, t ∈ run'.stamps → i = j
  lease : ∀ (i : ℕ) (run : WorkerRun), runs[i]? = some run → ∃ t ∈ run.stamps, run.lease = some t

/-- No claim has held a stamp that is yet to come. -/
theorem Leases.fresh {clock now : Time} {runs : List WorkerRun} {i : ℕ} {run : WorkerRun}
    (h : Leases clock runs) (hnow : clock < now) (hrun : runs[i]? = some run) :
    now ∉ run.stamps :=
  fun hmem => absurd (h.past i run hrun now hmem) (not_le_of_gt hnow)

/-- The stamps a run gains are later than every stamp so far. -/
theorem Leases.set {clock now : Time} {runs : List WorkerRun} {i : ℕ} {run run' : WorkerRun}
    (h : Leases clock runs) (hrun : runs[i]? = some run) (hnow : clock < now)
    (hstamps : ∀ t ∈ run'.stamps, t ∈ run.stamps ∨ t = now)
    (hlease : ∃ t ∈ run'.stamps, run'.lease = some t) : Leases now (runs.set i run') where
  past := by
    intro j run₂ hj t ht
    rcases getElem?_set_cases hj with ⟨rfl, rfl⟩ | ⟨-, hj⟩
    · rcases hstamps t ht with ht | ht
      · exact (h.past _ _ hrun t ht).trans hnow.le
      · exact ht.le
    · exact (h.past _ _ hj t ht).trans hnow.le
  apart := by
    intro j k run₂ run₃ hj hk t ht ht'
    rcases getElem?_set_cases hj with ⟨hji, hj'⟩ | ⟨-, hj'⟩
    · rcases getElem?_set_cases hk with ⟨hki, -⟩ | ⟨-, hk'⟩
      · rw [hji, hki]
      · subst hj'
        rcases hstamps t ht with ht | rfl
        · rw [hji]
          exact h.apart _ _ _ _ hrun hk' t ht ht'
        · exact absurd ht' (h.fresh hnow hk')
    · rcases getElem?_set_cases hk with ⟨hki, hk'⟩ | ⟨-, hk'⟩
      · subst hk'
        rcases hstamps t ht' with ht' | rfl
        · rw [hki]
          exact h.apart _ _ _ _ hj' hrun t ht ht'
        · exact absurd ht (h.fresh hnow hj')
      · exact h.apart _ _ _ _ hj' hk' t ht ht'
  lease := by
    intro j run₂ hj
    rcases getElem?_set_cases hj with ⟨-, rfl⟩ | ⟨-, hj⟩
    · exact hlease
    · exact h.lease _ _ hj

theorem Leases.append {clock now : Time} {runs : List WorkerRun} {run : WorkerRun}
    (h : Leases clock runs) (hnow : clock < now) (hstamps : run.stamps = [now])
    (hlease : run.lease = some now) : Leases now (runs ++ [run]) where
  past := by
    intro j run₂ hj t ht
    rcases getElem?_concat_cases hj with ⟨-, rfl⟩ | ⟨-, hj⟩
    · rw [hstamps, List.mem_singleton] at ht
      exact ht.le
    · exact (h.past _ _ hj t ht).trans hnow.le
  apart := by
    intro j k run₂ run₃ hj hk t ht ht'
    rcases getElem?_concat_cases hj with ⟨hjl, rfl⟩ | ⟨-, hj'⟩
    · rcases getElem?_concat_cases hk with ⟨hkl, -⟩ | ⟨-, hk'⟩
      · rw [hjl, hkl]
      · rw [hstamps, List.mem_singleton] at ht
        exact absurd (ht ▸ ht') (h.fresh hnow hk')
    · rcases getElem?_concat_cases hk with ⟨-, rfl⟩ | ⟨-, hk'⟩
      · rw [hstamps, List.mem_singleton] at ht'
        exact absurd (ht' ▸ ht) (h.fresh hnow hj')
      · exact h.apart _ _ _ _ hj' hk' t ht ht'
  lease := by
    intro j run₂ hj
    rcases getElem?_concat_cases hj with ⟨-, rfl⟩ | ⟨-, hj⟩
    · exact ⟨now, by rw [hstamps]; exact List.mem_singleton_self _, hlease⟩
    · exact h.lease _ _ hj

theorem Leases.later {clock now : Time} {runs : List WorkerRun} (h : Leases clock runs)
    (hnow : clock < now) : Leases now runs :=
  ⟨fun i run hi t ht => (h.past i run hi t ht).trans hnow.le, h.apart, h.lease⟩

/-! ## Requests and holders -/

/-- An error asks for what the failures at the claim decide, and anything else ends the job. -/
def Reports (job : Job) (req : FinishReq) : Prop :=
  (req.error.isSome = true → req.status = retryDecision job.failures job.maxAttempts) ∧
    (req.error.isSome = false → req.status.isTerminal = true)

/-- The request names its claim's job and a stamp its claim held. -/
def Honest (runs : List WorkerRun) (req : FinishReq) : Prop :=
  ∃ run : WorkerRun, runs[req.claim]? = some run ∧ req.id = run.job.id ∧
    (∃ t ∈ run.stamps, req.claimedAt = some t) ∧ Reports run.job req

theorem Honest.grows {runs runs' : List WorkerRun} {req : FinishReq} (h : Honest runs req)
    (hgrows : Grows runs runs') : Honest runs' req := by
  rcases h with ⟨run, hrun, hid, ⟨t, ht, hclaimed⟩, hreports⟩
  rcases hgrows _ _ hrun with ⟨run', hrun', hjob, hsub⟩
  exact ⟨run', hrun', by rw [hjob]; exact hid, ⟨t, hsub ht, hclaimed⟩, by rw [hjob]; exact hreports⟩

theorem honest_finishReq {clock : Time} {runs : List WorkerRun} {i : ℕ} {run : WorkerRun}
    (hleases : Leases clock runs) (hrun : runs[i]? = some run) (outcome : Except String Json) :
    Honest runs (run.finishReq i outcome) := by
  rcases hleases.lease i run hrun with ⟨t, ht, hlease⟩
  cases outcome with
  | ok result =>
    refine ⟨run, hrun, rfl, ⟨t, ht, hlease⟩, ?_, ?_⟩
    · intro herror
      cases herror
    · intro _
      show (if run.cancelled then JobStatus.cancelled else .done).isTerminal = true
      split_ifs <;> rfl
  | error e =>
    refine ⟨run, hrun, rfl, ⟨t, ht, hlease⟩, fun _ => rfl, ?_⟩
    intro herror
    cases herror

/-- Claim `i` holds the row: it is the last claim of that job, its stamp is on the row, no finish
of it took effect, and it saw the failures the row still has. -/
structure Owns (runs : List WorkerRun) (effects : List Effect) (i : ℕ) (r : Job) : Prop where
  run : ∃ run : WorkerRun, runs[i]? = some run ∧ run.job.id = r.id ∧
    (∃ t ∈ run.stamps, r.claimedAt = some t) ∧ run.job.failures = r.failures ∧ run.job.maxAttempts = r.maxAttempts
  pending : ∀ e ∈ effects, e.claim ≠ i
  latest : ∀ (j : ℕ) (run' : WorkerRun), runs[j]? = some run' → run'.job.id = r.id → j ≤ i

/-- A claim keeps its row while the runs grow without a new claim of the job. -/
theorem Owns.grows {runs runs' : List WorkerRun} {effects : List Effect} {i : ℕ} {r r' : Job}
    (h : Owns runs effects i r) (hgrows : Grows runs runs') (hid : r'.id = r.id)
    (hclaimed : r'.claimedAt = r.claimedAt) (hfailures : r'.failures = r.failures)
    (hmax : r'.maxAttempts = r.maxAttempts)
    (hback : ∀ (j : ℕ) (run' : WorkerRun), runs'[j]? = some run' → run'.job.id = r.id →
      ∃ run : WorkerRun, runs[j]? = some run ∧ run.job.id = r.id) : Owns runs' effects i r' where
  run := by
    rcases h.run with ⟨run, hrun, hrid, ⟨t, ht, hstamp⟩, hf, hm⟩
    rcases hgrows _ _ hrun with ⟨run', hrun', hjob, hsub⟩
    refine ⟨run', hrun', ?_, ⟨t, hsub ht, ?_⟩, ?_, ?_⟩
    · rw [hjob, hid, hrid]
    · rw [hclaimed, hstamp]
    · rw [hjob, hfailures, hf]
    · rw [hjob, hmax, hm]
  pending := h.pending
  latest := by
    intro j run' hj hjid
    rw [hid] at hjid
    rcases hback j run' hj hjid with ⟨run, hj', hjid'⟩
    exact h.latest j run hj' hjid'

/-- The effective finishes of a job that reported an error. -/
def failedEffects (effects : List Effect) (id : String) : ℕ :=
  effects.countP fun e => e.failed && e.jobId == id

/-- Who holds which stamp, and which finishes took effect. -/
structure Verdicts (clock : Time) (s : JobSystem) : Prop where
  leases : Leases clock s.runs
  honest : ∀ req ∈ s.sent, Honest s.runs req
  known : ∀ (i : ℕ) (run : WorkerRun), s.runs[i]? = some run →
    ∃ r ∈ s.table.rows, r.id = run.job.id
  owned : ∀ r ∈ s.table.rows, r.status.isHeld = true → ∃ i, Owns s.runs s.effects i r
  counted : ∀ r ∈ s.table.rows, r.failures = failedEffects s.effects r.id
  budget : ∀ r ∈ s.table.rows, r.failures ≤ r.maxAttempts ∧
    (r.status.isTerminal = false → r.failures < r.maxAttempts)
  granted : ∀ e ∈ s.effects, ∃ run : WorkerRun,
    s.runs[e.claim]? = some run ∧ run.job.id = e.jobId
  once : (s.effects.map Effect.claim).Nodup

/-! ## Steps that record no verdict -/

/-- The rewritten row keeps its id and its counts, and is not reopened. -/
structure Steady (r r' : Job) : Prop where
  id : r'.id = r.id
  failures : r'.failures = r.failures
  maxAttempts : r'.maxAttempts = r.maxAttempts
  ended : r.status.isTerminal = true → r'.status.isTerminal = true

/-- The rewritten row keeps its stamp too, and gains no holder. -/
structure Kept (r r' : Job) : Prop extends Steady r r' where
  claimedAt : r'.claimedAt = r.claimedAt
  held : r'.status.isHeld = true → r.status.isHeld = true

theorem Kept.refl (r : Job) : Kept r r := ⟨⟨rfl, rfl, rfl, fun h => h⟩, rfl, fun h => h⟩

/-- Rows rewritten steadily and runs that grow keep the invariant, if the holders are known. -/
theorem Verdicts.steady {clock now : Time} {s : JobSystem} (h : Verdicts clock s) {table : JobTable}
    {runs : List WorkerRun} {sent : List FinishReq} {f : Job → Job}
    (hf : ∀ r ∈ s.table.rows, Steady r (f r))
    (hrows : table.rows = s.table.rows.map f) (hgrows : Grows s.runs runs)
    (hleases : Leases now runs) (hsent : ∀ req ∈ sent, Honest runs req)
    (hknown : ∀ (i : ℕ) (run : WorkerRun), runs[i]? = some run →
      ∃ r ∈ s.table.rows, r.id = run.job.id)
    (howned : ∀ r ∈ s.table.rows, (f r).status.isHeld = true →
      ∃ i, Owns runs s.effects i (f r)) :
    Verdicts now { table, runs, sent, effects := s.effects } where
  leases := hleases
  honest := hsent
  known := by
    intro i run hrun
    rcases hknown i run hrun with ⟨r, hr, hid⟩
    exact ⟨f r, hrows ▸ List.mem_map_of_mem hr, (hf r hr).id.trans hid⟩
  owned := by
    intro r' hr'
    rcases List.mem_map.1 (hrows ▸ hr') with ⟨r, hr, rfl⟩
    exact howned r hr
  counted := by
    intro r' hr'
    rcases List.mem_map.1 (hrows ▸ hr') with ⟨r, hr, rfl⟩
    rw [(hf r hr).failures, (hf r hr).id]
    exact h.counted r hr
  budget := by
    intro r' hr'
    rcases List.mem_map.1 (hrows ▸ hr') with ⟨r, hr, rfl⟩
    rw [(hf r hr).failures, (hf r hr).maxAttempts]
    refine ⟨(h.budget r hr).1, ?_⟩
    intro hopen
    apply (h.budget r hr).2
    -- a row that had ended is still ended
    by_contra hended
    rw [(hf r hr).ended (Bool.not_eq_false _ ▸ hended)] at hopen
    cases hopen
  granted := by
    intro e he
    rcases h.granted e he with ⟨run, hrun, hid⟩
    rcases hgrows _ _ hrun with ⟨run', hrun', hjob, -⟩
    exact ⟨run', hrun', by rw [hjob]; exact hid⟩
  once := h.once

/-- Rows whose stamps and holders stay keep the invariant. -/
theorem Verdicts.rewrite {clock now : Time} {s : JobSystem} (h : Verdicts clock s)
    (hnow : clock < now) {table : JobTable} {f : Job → Job} (hf : ∀ r ∈ s.table.rows, Kept r (f r))
    (hrows : table.rows = s.table.rows.map f) : Verdicts now { s with table } := by
  refine h.steady (fun r hr => (hf r hr).toSteady) hrows (Grows.refl _) (h.leases.later hnow)
    h.honest h.known ?_
  intro r hr hst
  rcases h.owned r hr ((hf r hr).held hst) with ⟨i, howns⟩
  exact ⟨i, howns.grows (Grows.refl _) (hf r hr).id (hf r hr).claimedAt (hf r hr).failures
    (hf r hr).maxAttempts fun j run' hj hid => ⟨run', hj, hid⟩⟩

theorem failedEffects_eq_zero {clock : Time} {s : JobSystem} (h : Verdicts clock s) {id : String}
    (hid : id ∉ s.table.rows.map Job.id) : failedEffects s.effects id = 0 := by
  refine List.countP_eq_zero.2 ?_
  intro e he hboth
  rcases h.granted e he with ⟨run, hrun, hrid⟩
  rcases h.known _ _ hrun with ⟨r, hr, hrun'⟩
  simp only [Bool.and_eq_true, beq_iff_eq] at hboth
  apply hid
  rw [← hboth.2, ← hrid, ← hrun']
  exact List.mem_map_of_mem hr

theorem verdicts_enqueue {clock now : Time} {s : JobSystem} (h : Verdicts clock s)
    (hnow : clock < now) (id jobType : String) (project : Option String) (payload : Json) :
    Verdicts now { s with table := s.table.create (.enqueued id jobType project payload now) } := by
  rcases create_rows s.table (.enqueued id jobType project payload now) with
    hsame | ⟨hfresh, hrows⟩
  · rw [hsame]
    exact { h with leases := h.leases.later hnow }
  · refine { h with leases := h.leases.later hnow, known := ?_, owned := ?_, counted := ?_, budget := ?_ }
    · intro i run hrun
      rcases h.known i run hrun with ⟨r, hr, hid⟩
      exact ⟨r, hrows ▸ List.mem_append_left _ hr, hid⟩
    · intro r hr hheld
      rcases List.mem_append.1 (hrows ▸ hr) with hr | hr
      · exact h.owned r hr hheld
      · rw [List.mem_singleton.1 hr] at hheld
        cases hheld
    · intro r hr
      rcases List.mem_append.1 (hrows ▸ hr) with hr | hr
      · exact h.counted r hr
      · rw [List.mem_singleton.1 hr]
        exact (failedEffects_eq_zero h hfresh).symm
    · intro r hr
      rcases List.mem_append.1 (hrows ▸ hr) with hr | hr
      · exact h.budget r hr
      · rw [List.mem_singleton.1 hr]
        exact ⟨Nat.zero_le _, fun _ => Nat.succ_pos _⟩

theorem verdicts_cancel {clock now : Time} {s : JobSystem} (h : Verdicts clock s)
    (hnow : clock < now) (project : Option String) (id : String) :
    Verdicts now { s with table := (s.table.cancel now project id).2 } := by
  refine h.rewrite hnow (f := cancelRow now project id) ?_ rfl
  intro r _
  rcases cancelRow_cases now project id r with hsame | ⟨hst, hrow⟩
  · rw [hsame]
    exact Kept.refl r
  · rw [hrow]
    -- a queued row ends, and a running one stays held
    rcases hst with hst | hst
    · refine ⟨⟨rfl, rfl, rfl, ?_⟩, rfl, ?_⟩
      · rw [hst]
        exact fun hended => absurd hended Bool.false_ne_true
      · rw [hst]
        exact fun hheld => absurd hheld Bool.false_ne_true
    · refine ⟨⟨rfl, rfl, rfl, ?_⟩, rfl, ?_⟩
      · rw [hst]
        exact fun hended => absurd hended Bool.false_ne_true
      · rw [hst]
        exact fun _ => rfl

theorem verdicts_progress {clock now : Time} {s : JobSystem} (h : Verdicts clock s)
    (hnow : clock < now) (id progress : String) :
    Verdicts now { s with table := s.table.updateProgress now id progress } := by
  refine h.rewrite hnow ?_ rfl
  intro r _
  split_ifs
  · exact ⟨⟨rfl, rfl, rfl, fun hended => hended⟩, rfl, fun hheld => hheld⟩
  · exact Kept.refl r

theorem kept_orphanRow (now staleBefore : Time) (r : Job) : Kept r (orphanRow now staleBefore r) := by
  rcases orphanRow_cases now staleBefore r with hsame | ⟨-, hrow⟩
  · rw [hsame]
    exact Kept.refl r
  · rw [hrow]
    exact ⟨⟨rfl, rfl, rfl, fun _ => rfl⟩, rfl, fun hheld => absurd hheld Bool.false_ne_true⟩

/-- The new claim holds its row under a stamp of its own, and every other row stays as it was. -/
theorem verdicts_claim {clock now : Time} {s : JobSystem} (h : Verdicts clock s)
    (hnow : clock < now) (staleBefore : Time) (kinds : List String) :
    Verdicts now { s with
      table := (s.table.claim now staleBefore kinds).2
      runs := s.runs ++ (s.table.claim now staleBefore kinds).1.toList.map (claimedRun now) } := by
  rcases claim_cases s.table now staleBefore kinds with
    ⟨hnone, hrows⟩ | ⟨j, hj, hst, hsome, hrows⟩
  · rw [hnone]
    simp only [Option.toList_none, List.map_nil, List.append_nil]
    exact h.rewrite hnow (fun r _ => kept_orphanRow now staleBefore r) hrows
  · rw [hsome]
    have hopen : j.status.isTerminal = false := by
      rcases hst with hst | hst
      · rw [hst]
        rfl
      · rw [hst]
        rfl
    refine h.steady ?_ hrows (Grows.append _ _) (h.leases.append hnow rfl rfl) ?_ ?_ ?_
    · intro r hr
      split_ifs with hid
      · rw [s.table.eq_of_key hr hj hid]
        refine ⟨rfl, rfl, rfl, fun hended => ?_⟩
        rw [hopen] at hended
        cases hended
      · exact (kept_orphanRow now staleBefore r).toSteady
    · intro req hreq
      exact (h.honest req hreq).grows (Grows.append _ _)
    · intro i run hrun
      rcases getElem?_concat_cases hrun with ⟨-, rfl⟩ | ⟨-, hrun⟩
      · exact ⟨j, hj, rfl⟩
      · exact h.known i run hrun
    · intro r hr
      split_ifs with hid
      · -- the claimed row
        intro _
        rw [s.table.eq_of_key hr hj hid]
        refine ⟨s.runs.length, ⟨_, List.getElem?_concat_length, rfl,
          ⟨now, List.mem_singleton_self _, rfl⟩, rfl, rfl⟩, ?_, ?_⟩
        · intro e he
          rcases h.granted e he with ⟨run, hrun, -⟩
          exact (lt_length_of_getElem? hrun).ne
        · intro k run' hk _
          rcases getElem?_concat_cases hk with ⟨hlast, -⟩ | ⟨hlt, -⟩
          · omega
          · omega
      · intro hheld
        have hkept := kept_orphanRow now staleBefore r
        rcases h.owned r hr (hkept.held hheld) with ⟨i, howns⟩
        refine ⟨i, howns.grows (Grows.append _ _) hkept.id hkept.claimedAt hkept.failures
          hkept.maxAttempts ?_⟩
        intro k run' hk hkid
        rcases getElem?_concat_cases hk with ⟨-, rfl⟩ | ⟨-, hk⟩
        · exact absurd hkid.symm hid
        · exact ⟨run', hk, hkid⟩

/-- Going back from a rewritten list of runs: the same claims are for the same jobs. -/
theorem job_of_set {runs : List WorkerRun} {i j : ℕ} {run run' run₂ : WorkerRun} {id : String}
    (hrun : runs[i]? = some run) (hjob : run'.job = run.job)
    (hj : (runs.set i run')[j]? = some run₂) (hid : run₂.job.id = id) :
    ∃ run₃ : WorkerRun, runs[j]? = some run₃ ∧ run₃.job.id = id := by
  rcases getElem?_set_cases hj with ⟨rfl, rfl⟩ | ⟨-, hj⟩
  · exact ⟨run, hrun, by rw [← hjob]; exact hid⟩
  · exact ⟨run₂, hj, hid⟩

/-- A run that changes neither its job nor its stamps, and requests that are honest. -/
theorem verdicts_run {clock now : Time} {s : JobSystem} (h : Verdicts clock s) (hnow : clock < now)
    {i : ℕ} {run : WorkerRun} (hrun : s.runs[i]? = some run) (run' : WorkerRun)
    (hjob : run'.job = run.job) (hstamps : run'.stamps = run.stamps) (hlease : run'.lease = run.lease)
    {sent : List FinishReq} (hsent : ∀ req ∈ sent, Honest s.runs req) :
    Verdicts now { s with runs := s.runs.set i run', sent } := by
  have hgrows : Grows s.runs (s.runs.set i run') :=
    Grows.set hrun hjob (by rw [hstamps]; exact List.Subset.refl _)
  have hleases : Leases now (s.runs.set i run') := by
    refine h.leases.set hrun hnow ?_ ?_
    · intro t ht
      rw [hstamps] at ht
      exact .inl ht
    · rw [hstamps, hlease]
      exact h.leases.lease i run hrun
  refine h.steady (f := fun r => r) (fun r _ => (Kept.refl r).toSteady) (List.map_id' _).symm hgrows
    hleases (fun req hreq => (hsent req hreq).grows hgrows) ?_ ?_
  · intro j run₂ hj
    rcases job_of_set hrun hjob hj rfl with ⟨run₃, hj', hid⟩
    rcases h.known j run₃ hj' with ⟨r, hr, hrid⟩
    exact ⟨r, hr, hrid.trans hid⟩
  · intro r hr hheld
    rcases h.owned r hr hheld with ⟨j, howns⟩
    exact ⟨j, howns.grows hgrows rfl rfl rfl rfl fun k run₂ hk hid => job_of_set hrun hjob hk hid⟩

/-- A renewal moves the stamp of the row and gives its claim the new one. -/
theorem verdicts_renewed {clock now : Time} {s : JobSystem} (h : Verdicts clock s)
    (hnow : clock < now) {i : ℕ} {run run' : WorkerRun} {fence : Time}
    (hrun : s.runs[i]? = some run) (hfence : fence ∈ run.stamps) (hjob : run'.job = run.job)
    (hstamps : run'.stamps =
      run.stamps ++ (s.table.renewLease now run.job.id fence).1.toList)
    (hlease : ∃ t ∈ run'.stamps, run'.lease = some t) :
    Verdicts now { s with
      table := (s.table.renewLease now run.job.id fence).2
      runs := s.runs.set i run' } := by
  have hgrows : Grows s.runs (s.runs.set i run') := by
    refine Grows.set hrun hjob ?_
    rw [hstamps]
    exact List.subset_append_left _ _
  have hleases : Leases now (s.runs.set i run') := by
    refine h.leases.set hrun hnow ?_ hlease
    intro t ht
    rw [hstamps] at ht
    rcases List.mem_append.1 ht with ht | ht
    · exact .inl ht
    · rcases renewLease_fst s.table now run.job.id fence with hnone | hsome
      · rw [hnone] at ht
        cases ht
      · rw [hsome] at ht
        exact .inr (List.mem_singleton.1 ht)
  have hrows : (s.table.renewLease now run.job.id fence).2.rows = s.table.rows.map fun r =>
      if renewable run.job.id fence r then { r with claimedAt := some now, updatedAt := now }
      else r := rfl
  refine h.steady ?_ hrows hgrows hleases (fun req hreq => (h.honest req hreq).grows hgrows) ?_ ?_
  · intro r _
    split_ifs
    · exact ⟨rfl, rfl, rfl, fun hended => hended⟩
    · exact (Kept.refl r).toSteady
  · intro j run₂ hj
    rcases job_of_set hrun hjob hj rfl with ⟨run₃, hj', hid⟩
    rcases h.known j run₃ hj' with ⟨r, hr, hrid⟩
    exact ⟨r, hr, hrid.trans hid⟩
  · intro r hr
    split_ifs with hrenew
    · -- the stamp is the fence, so the holder is the claim that renews
      intro hheld
      rcases h.owned r hr hheld with ⟨j, howns⟩
      rcases howns.run with ⟨run₂, hrun₂, hid, ⟨t, ht, hclaimed⟩, hfailures, hmax⟩
      have hstamp : t = fence := by
        rw [(renewable_iff.1 hrenew).2.1] at hclaimed
        exact (Option.some.inj hclaimed).symm
      have hij : i = j := h.leases.apart i j run run₂ hrun hrun₂ fence hfence (hstamp ▸ ht)
      subst hij
      rw [hrun] at hrun₂
      cases hrun₂
      refine ⟨i, ⟨run', List.getElem?_set_self (lt_length_of_getElem? hrun), ?_, ⟨now, ?_, rfl⟩, ?_,
        ?_⟩, howns.pending, ?_⟩
      · rw [hjob]
        exact hid
      · rw [hstamps, renewLease_fst_of_mem hr hrenew now]
        exact List.mem_append_right _ (List.mem_singleton_self _)
      · rw [hjob]
        exact hfailures
      · rw [hjob]
        exact hmax
      · intro k run₂ hk hkid
        rcases job_of_set hrun hjob hk hkid with ⟨run₃, hk', hkid'⟩
        exact howns.latest k run₃ hk' hkid'
    · intro hheld
      rcases h.owned r hr hheld with ⟨j, howns⟩
      exact ⟨j, howns.grows hgrows rfl rfl rfl rfl
        fun k run₂ hk hid => job_of_set hrun hjob hk hid⟩

/-- What the worker hears changes neither its job nor its stamps. -/
theorem heard_job (answer : Option Time) (run : WorkerRun) :
    (heard answer run).job = run.job ∧ (heard answer run).stamps = run.stamps := by
  cases answer <;> exact ⟨rfl, rfl⟩

theorem verdicts_renew {clock now : Time} {s : JobSystem} (h : Verdicts clock s)
    (hnow : clock < now) (i : ℕ) (fence : Time) (answered : Bool) :
    Verdicts now (exec now (.renew i fence answered) s).state := by
  rcases exec_renew now i fence answered s with hsame | ⟨run, hrun, hfence, hexec⟩
  · rw [hsame]
    exact { h with leases := h.leases.later hnow }
  · rw [hexec]
    rcases h.leases.lease i run hrun with ⟨t, ht, hlease⟩
    cases answered with
    | false => exact verdicts_renewed h hnow hrun hfence rfl rfl ⟨t, List.mem_append_left _ ht, hlease⟩
    | true =>
      refine verdicts_renewed h hnow hrun hfence (heard_job _ _).1 (heard_job _ _).2 ?_
      rw [if_pos rfl, (heard_job _ _).2]
      rcases renewLease_fst s.table now run.job.id fence with hnone | hsome
      · rw [hnone]
        exact ⟨t, List.mem_append_left _ ht, hlease⟩
      · rw [hsome]
        exact ⟨now, List.mem_append_right _ (List.mem_singleton_self _), rfl⟩

/-! ## Verdicts -/

/-- The finish that is delivered does not land on a job that is queued again. -/
def NotRequeued (s : JobSystem) (op : JobOp) : Prop :=
  ∀ k, op = .deliver k → ∀ req, s.sent[k]? = some req →
    ∀ r ∈ s.table.rows, finishable req.id req.claimedAt r = true → r.status ≠ .queued

/-- A finish that is taken is the first of its claim, and the claim is the last of its job. -/
theorem taken_owner {clock : Time} {s : JobSystem} (h : Verdicts clock s) {req : FinishReq}
    (hreq : req ∈ s.sent) {r : Job} (hr : r ∈ s.table.rows)
    (hfinish : finishable req.id req.claimedAt r = true) (hqueued : r.status ≠ .queued) :
    Owns s.runs s.effects req.claim r ∧ Reports r req := by
  rcases finishable_iff.1 hfinish with ⟨hid, hopen, hstamp⟩
  have hheld : r.status.isHeld = true := by
    cases hst : r.status <;> simp_all [JobStatus.isTerminal, JobStatus.isHeld]
  rcases h.honest req hreq with ⟨run, hrun, hrid, ⟨t, ht, hclaimed⟩, hreports⟩
  rcases h.owned r hr hheld with ⟨i, howns⟩
  rcases howns.run with ⟨run', hrun', hid', ⟨t', ht', hclaimed'⟩, hfailures, hmax⟩
  have htt : t' = t := by
    rw [hstamp t hclaimed] at hclaimed'
    exact (Option.some.inj hclaimed').symm
  have hi : i = req.claim := h.leases.apart i req.claim run' run hrun' hrun t' ht' (htt ▸ ht)
  subst hi
  rw [hrun] at hrun'
  cases hrun'
  refine ⟨howns, ?_, ?_⟩
  · rw [← hfailures, ← hmax]
    exact hreports.1
  · exact hreports.2

theorem retryDecision_cases (failures maxAttempts : ℕ) :
    retryDecision failures maxAttempts = .queued ∧ failures + 1 < maxAttempts ∨
      retryDecision failures maxAttempts = .failed := by
  by_cases hretry : failures + 1 < maxAttempts
  · exact .inl ⟨if_pos hretry, hretry⟩
  · exact .inr (if_neg hretry)

/-- What a finish asks for holds no lease, and it reopens the job only within the budget. -/
theorem Reports.status {r : Job} {req : FinishReq} (h : Reports r req) :
    req.status.isHeld = false ∧ (req.status.isTerminal = false →
      req.error.isSome = true ∧ r.failures + 1 < r.maxAttempts) := by
  cases herror : req.error.isSome with
  | true =>
    rcases retryDecision_cases r.failures r.maxAttempts with ⟨hst, hretry⟩ | hst
    · rw [h.1 herror, hst]
      exact ⟨rfl, fun _ => ⟨rfl, hretry⟩⟩
    · rw [h.1 herror, hst]
      refine ⟨rfl, fun hopen => ?_⟩
      cases hopen
  | false =>
    have hended := h.2 herror
    constructor
    · cases hst : req.status <;> simp_all [JobStatus.isTerminal, JobStatus.isHeld]
    · intro hopen
      rw [hended] at hopen
      cases hopen

theorem failedEffects_append (effects : List Effect) (e : Effect) (id : String) :
    failedEffects (effects ++ [e]) id =
      failedEffects effects id + if e.failed && e.jobId == id then 1 else 0 := by
  unfold failedEffects
  rw [List.countP_append, List.countP_singleton]

/-- The finish counts its failure on the row it takes. -/
theorem finishRow_counted {effects : List Effect} {req : FinishReq} {r : Job} (now : Time)
    (hid : r.id = req.id) (hcount : r.failures = failedEffects effects r.id) :
    (finishRow now req.status req.result req.error r).failures = failedEffects
      (effects ++ [{ claim := req.claim, jobId := req.id, failed := req.error.isSome }]) r.id := by
  have hfailed : (req.error.isSome && req.id == r.id) = req.error.isSome := by
    rw [hid, beq_self_eq_true, Bool.and_true]
  rw [failedEffects_append, hfailed, ← hcount]
  rfl

theorem failedEffects_other {effects : List Effect} {e : Effect} {id : String}
    (hid : e.jobId ≠ id) : failedEffects (effects ++ [e]) id = failedEffects effects id := by
  rw [failedEffects_append, beq_false_of_ne hid, Bool.and_false, if_neg Bool.false_ne_true,
    Nat.add_zero]

/-- A row that was held had a try left to lose. -/
theorem finishRow_budget {req : FinishReq} {r : Job} (now : Time)
    (hlt : r.failures < r.maxAttempts) (hreports : Reports r req) :
    (finishRow now req.status req.result req.error r).failures ≤ r.maxAttempts ∧
      (req.status.isTerminal = false →
        (finishRow now req.status req.result req.error r).failures < r.maxAttempts) := by
  constructor
  · show r.failures + (if req.error.isSome then 1 else 0) ≤ r.maxAttempts
    split_ifs <;> omega
  · intro hopen
    rcases hreports.status.2 hopen with ⟨herror, hretry⟩
    show r.failures + (if req.error.isSome then 1 else 0) < r.maxAttempts
    rw [if_pos herror]
    exact hretry

/-- The verdict of another job's claim leaves an owner pending. -/
theorem Owns.append {runs : List WorkerRun} {effects : List Effect} {i : ℕ} {r : Job} {e : Effect}
    {run : WorkerRun} (h : Owns runs effects i r) (hrun : runs[e.claim]? = some run)
    (hid : run.job.id ≠ r.id) : Owns runs (effects ++ [e]) i r := by
  refine ⟨h.run, ?_, h.latest⟩
  intro e' he'
  rcases List.mem_append.1 he' with he' | he'
  · exact h.pending e' he'
  · rw [List.mem_singleton.1 he']
    rintro rfl
    rcases h.run with ⟨run', hrun', hid', -⟩
    rw [hrun] at hrun'
    cases hrun'
    exact hid hid'

/-- A finish records the verdict of the claim that holds the row. -/
theorem verdicts_deliver {clock now : Time} {s : JobSystem} (h : Verdicts clock s)
    (hnow : clock < now) (k : ℕ) (hcond : NotRequeued s (.deliver k)) :
    Verdicts now (exec now (.deliver k) s).state := by
  rcases exec_deliver now k s with ⟨hsame, -⟩ | ⟨req, hreq, hexec⟩
  · rw [hsame]
    exact { h with leases := h.leases.later hnow }
  have hmem := List.mem_of_getElem? hreq
  rw [hexec]
  rcases finish_cases s.table now req.id req.status req.result req.error req.claimedAt with
    ⟨-, hrefused, hsame⟩ | ⟨r, hr, hfinish, htaken, hrows⟩
  · simp only [if_neg hrefused, hsame]
    exact { h with leases := h.leases.later hnow }
  simp only [if_pos htaken]
  rcases taken_owner h hmem hr hfinish (hcond k rfl req hreq r hr hfinish) with
    ⟨howns, hreports⟩
  rcases howns.run with ⟨run, hrun, hrid, -, -, -⟩
  have hid : r.id = req.id := (finishable_iff.1 hfinish).1
  refine
    { leases := h.leases.later hnow
      honest := h.honest
      known := ?_
      owned := ?_
      counted := ?_
      budget := ?_
      granted := ?_
      once := ?_ }
  · -- a run that is known stays known: rows keep their ids
    intro i run' hi
    rcases h.known i run' hi with ⟨r', hr', hid'⟩
    refine ⟨_, hrows ▸ List.mem_map_of_mem hr', ?_⟩
    split_ifs
    · exact hid'
    · exact hid'
  · intro r' hr'
    rcases List.mem_map.1 (hrows ▸ hr') with ⟨r₀, hr₀, rfl⟩
    split_ifs with hid'
    · -- the row is done, or back in the queue
      intro hheld
      have hheld' : req.status.isHeld = true := hheld
      rw [hreports.status.1] at hheld'
      cases hheld'
    · intro hheld
      -- another row's owner is not the run that reports
      rcases h.owned r₀ hr₀ hheld with ⟨i, howns'⟩
      exact ⟨i, howns'.append hrun fun heq => hid' (heq.symm.trans hrid)⟩
  · intro r' hr'
    rcases List.mem_map.1 (hrows ▸ hr') with ⟨r₀, hr₀, rfl⟩
    split_ifs with hid'
    · exact finishRow_counted now (hid'.trans hid) (h.counted r₀ hr₀)
    · rw [failedEffects_other fun heq => hid' (heq.symm.trans hid.symm)]
      exact h.counted r₀ hr₀
  · intro r' hr'
    rcases List.mem_map.1 (hrows ▸ hr') with ⟨r₀, hr₀, rfl⟩
    split_ifs with hid'
    · rw [s.table.eq_of_key hr₀ hr hid']
      exact finishRow_budget now ((h.budget r hr).2 (finishable_iff.1 hfinish).2.1) hreports
    · exact h.budget r₀ hr₀
  · intro e he
    rcases List.mem_append.1 he with he | he
    · exact h.granted e he
    · rw [List.mem_singleton.1 he]
      exact ⟨run, hrun, hrid.trans hid⟩
  · -- the claim was pending until now
    rw [List.map_append]
    refine List.nodup_append.2 ⟨h.once, List.nodup_singleton _, ?_⟩
    intro c hc c' hc' hcc
    rcases List.mem_map.1 hc with ⟨e, he, rfl⟩
    exact howns.pending e he (hcc.trans (List.mem_singleton.1 hc'))

/-- One step keeps the verdicts, unless a finish lands on a job that is queued again. -/
theorem verdicts_step {clock now : Time} {s : JobSystem} (h : Verdicts clock s)
    (hnow : clock < now) (op : JobOp) (hcond : NotRequeued s op) :
    Verdicts now (exec now op s).state := by
  cases op with
  | enqueue id jobType project payload => exact verdicts_enqueue h hnow id jobType project payload
  | cancel project id => exact verdicts_cancel h hnow project id
  | claim staleBefore kinds => exact verdicts_claim h hnow staleBefore kinds
  | progress id progress => exact verdicts_progress h hnow id progress
  | renew i fence answered => exact verdicts_renew h hnow i fence answered
  | poll i =>
    rcases exec_poll now i s with hsame | ⟨run, hrun, hexec⟩
    · rw [hsame]
      exact { h with leases := h.leases.later hnow }
    · rw [hexec]
      exact verdicts_run h hnow hrun
        { run with cancelled := run.cancelled || pollCancelled s.table run.job.id }
        rfl rfl rfl h.honest
  | work i outcome =>
    rcases exec_work now i outcome s with hsame | ⟨run, hrun, -, hexec⟩
    · rw [hsame]
      exact { h with leases := h.leases.later hnow }
    · rw [hexec]
      refine verdicts_run h hnow hrun { run with finished := true } rfl rfl rfl ?_
      intro req hreq
      rcases List.mem_append.1 hreq with hreq | hreq
      · exact h.honest req hreq
      · rw [List.mem_singleton.1 hreq]
        exact honest_finishReq h.leases hrun outcome
  | deliver k => exact verdicts_deliver h hnow k hcond

/-- The verdict of a row that ended. -/
def SameVerdict (r r' : Job) : Prop :=
  r'.id = r.id ∧ r'.status = r.status ∧ r'.result = r.result ∧ r'.error = r.error ∧
    r'.failures = r.failures

/-- A row that ended keeps its verdict. -/
theorem ended_step {s : JobSystem} (now : Time) (op : JobOp) {r : Job} (hr : r ∈ s.table.rows)
    (hended : r.status.isTerminal = true) :
    ∃ r' ∈ (exec now op s).state.table.rows, SameVerdict r r' := by
  have hsame : ∃ r' ∈ s.table.rows, SameVerdict r r' := ⟨r, hr, rfl, rfl, rfl, rfl, rfl⟩
  -- every operation maps the rows, and an ended row is no case of any
  have hmap : ∀ (rows : List Job) (f : Job → Job), rows = s.table.rows.map f →
      SameVerdict r (f r) → ∃ r' ∈ rows, SameVerdict r r' := by
    intro rows f hrows hf
    exact ⟨f r, hrows ▸ List.mem_map_of_mem hr, hf⟩
  have horphan : ∀ staleBefore, orphanRow now staleBefore r = r := by
    intro staleBefore
    rcases orphanRow_cases now staleBefore r with h | ⟨hst, -⟩
    · exact h
    · rw [hst] at hended
      cases hended
  cases op with
  | enqueue id jobType project payload =>
    rcases create_rows s.table (.enqueued id jobType project payload now) with h | ⟨-, hrows⟩
    · show ∃ r' ∈ (s.table.create _).rows, _
      rw [h]
      exact hsame
    · exact ⟨r, hrows ▸ List.mem_append_left _ hr, rfl, rfl, rfl, rfl, rfl⟩
  | cancel project id =>
    refine hmap _ (cancelRow now project id) rfl ?_
    rcases cancelRow_cases now project id r with h | ⟨hst, -⟩
    · rw [h]
      exact ⟨rfl, rfl, rfl, rfl, rfl⟩
    · rcases hst with hst | hst <;> simp [hst, JobStatus.isTerminal] at hended
  | claim staleBefore kinds =>
    rcases claim_cases s.table now staleBefore kinds with ⟨-, hrows⟩ | ⟨j, hj, hst, -, hrows⟩
    · refine hmap _ _ hrows ?_
      rw [horphan]
      exact ⟨rfl, rfl, rfl, rfl, rfl⟩
    · refine hmap _ _ hrows ?_
      -- the row claimed is queued or running
      split_ifs with hid
      · rw [s.table.eq_of_key hr hj hid] at hended
        rcases hst with hst | hst <;> simp [hst, JobStatus.isTerminal] at hended
      · rw [horphan]
        exact ⟨rfl, rfl, rfl, rfl, rfl⟩
  | progress id progress =>
    refine hmap _ _ rfl ?_
    split_ifs <;> exact ⟨rfl, rfl, rfl, rfl, rfl⟩
  | renew i fence answered =>
    rcases exec_renew now i fence answered s with h | ⟨run, -, -, hexec⟩
    · rw [h]
      exact hsame
    · rw [hexec]
      refine hmap _ _ rfl ?_
      split_ifs <;> exact ⟨rfl, rfl, rfl, rfl, rfl⟩
  | poll i =>
    rcases exec_poll now i s with h | ⟨run, -, hexec⟩
    · rw [h]
      exact hsame
    · rw [hexec]
      exact hsame
  | work i outcome =>
    rcases exec_work now i outcome s with h | ⟨run, -, -, hexec⟩
    · rw [h]
      exact hsame
    · rw [hexec]
      exact hsame
  | deliver k =>
    rcases exec_deliver now k s with ⟨h, -⟩ | ⟨req, -, hexec⟩
    · rw [h]
      exact hsame
    · rw [hexec]
      refine hmap _ _ rfl ?_
      split_ifs with hfinish
      · rw [(finishable_iff.1 hfinish).2.1] at hended
        cases hended
      · exact ⟨rfl, rfl, rfl, rfl, rfl⟩

/-- The instant of a step and what it does meet the conditions of `verdicts_step`. -/
def Fresh (s : Sys.Timed Time JobSystem) (l : Time × JobOp) : Prop :=
  Advances s l ∧ NotRequeued s.state l.2

theorem verdicts_run_of_init {s s' : Sys.Timed Time JobSystem} {ls : List (Time × JobOp)}
    (hinit : Init s) (hrun : Sys.Run (Sys.Restrict Step Fresh) s ls s') :
    Verdicts s'.clock s'.state := by
  refine hrun.invariant (I := fun a => Verdicts a.clock a.state) ?_ ?_
  · rcases hinit with ⟨hrows, hruns, hsent, heffects⟩
    constructor
    · rw [hruns]
      constructor <;> simp
    all_goals simp [hrows, hruns, hsent, heffects]
  · rintro a ⟨now, op⟩ b ⟨⟨-, rfl⟩, hadv, hcond⟩ h
    rw [exec_clock]
    exact verdicts_step h hadv op hcond

/-- A finish of this claim took effect. -/
def Answered (s : JobSystem) (claim : ℕ) : Prop := ∃ e ∈ s.effects, e.claim = claim

/-- The job was claimed again after this claim. -/
def Superseded (s : JobSystem) (claim : ℕ) (id : String) : Prop :=
  ∃ j, claim < j ∧ ∃ run : WorkerRun, s.runs[j]? = some run ∧ run.job.id = id

/-- A finish of a claim that was answered, or whose job was claimed again, changes nothing. -/
theorem deliver_refused {clock : Time} {s : JobSystem} (h : Verdicts clock s) (now : Time) {k : ℕ}
    {req : FinishReq} (hreq : s.sent[k]? = some req) (hcond : NotRequeued s (.deliver k))
    (hlate : Answered s req.claim ∨ Superseded s req.claim req.id) :
    (exec now (.deliver k) s).state = s := by
  rcases exec_deliver now k s with ⟨hsame, -⟩ | ⟨req', hreq', hexec⟩
  · exact hsame
  rw [hreq] at hreq'
  cases hreq'
  rw [hexec]
  rcases finish_cases s.table now req.id req.status req.result req.error req.claimedAt with
    ⟨-, hrefused, hsame⟩ | ⟨r, hr, hfinish, -, -⟩
  · simp only [if_neg hrefused, hsame]
  · exfalso
    have howns := (taken_owner h (List.mem_of_getElem? hreq) hr hfinish
      (hcond k rfl req hreq r hr hfinish)).1
    rcases hlate with ⟨e, he, hclaim⟩ | ⟨j, hlt, run, hrun, hid⟩
    · exact howns.pending e he hclaim
    · have hle := howns.latest j run hrun (hid.trans (finishable_iff.1 hfinish).1.symm)
      omega

/-- One verdict per claim, as a property of the state a run reached. -/
structure OneVerdict (s : Sys.Timed Time JobSystem) : Prop where
  /-- At most one finish took effect for each claim. -/
  once : (s.state.effects.map Effect.claim).Nodup
  /-- A finish of a claim that was answered, or whose job was claimed again, changes nothing. -/
  late : ∀ now k req, s.state.sent[k]? = some req → NotRequeued s.state (.deliver k) →
    Answered s.state req.claim ∨ Superseded s.state req.claim req.id →
    (exec now (.deliver k) s.state).state = s.state
  /-- The failures of a job are its claims whose finish reported an error. -/
  counted : ∀ r ∈ s.state.table.rows,
    r.failures = failedEffects s.state.effects r.id ∧ r.failures ≤ r.maxAttempts
  /-- What has ended keeps its verdict. -/
  final : ∀ r ∈ s.state.table.rows, r.status.isTerminal = true → ∀ ls s', Sys.Run Step s ls s' →
    ∃ r' ∈ s'.state.table.rows, SameVerdict r r'

/-- **One verdict per claim**, in every run in which no finish is delivered to a job that is queued
again under the stamp the finish names. -/
theorem one_verdict_run {s s' : Sys.Timed Time JobSystem} {ls : List (Time × JobOp)}
    (hinit : Init s) (hrun : Sys.Run (Sys.Restrict Step Fresh) s ls s') : OneVerdict s' := by
  have h := verdicts_run_of_init hinit hrun
  constructor
  · exact h.once
  · intro now k req hreq hcond hlate
    exact deliver_refused h now hreq hcond hlate
  · intro r hr
    exact ⟨h.counted r hr, (h.budget r hr).1⟩
  · intro r hr hended ls' s'' hrun'
    refine hrun'.invariant (I := fun a => ∃ r' ∈ a.state.table.rows, SameVerdict r r')
      ⟨r, hr, rfl, rfl, rfl, rfl, rfl⟩ ?_
    rintro a ⟨now, op⟩ b ⟨-, rfl⟩ ⟨r₁, hr₁, hid, hst, hresult, herror, hfailures⟩
    rcases ended_step now op hr₁ (hst ▸ hended) with
      ⟨r₂, hr₂, hid₂, hst₂, hresult₂, herror₂, hfailures₂⟩
    exact ⟨r₂, hr₂, hid₂.trans hid, hst₂.trans hst, hresult₂.trans hresult, herror₂.trans herror,
      hfailures₂.trans hfailures⟩

/-- The work fails, the worker asks for a retry, and its request is delivered once. -/
theorem one_verdict_run_sample :
    OneVerdict (after [(3, .work 0 (.error "case 3")), (4, .deliver 0)]) := by
  have hother : ∀ (s : Sys.Timed Time JobSystem) (l : Time × JobOp), Advances s l →
      (∀ k, l.2 ≠ .deliver k) → Fresh s l :=
    fun s l hadv hl => ⟨hadv, fun k hk => absurd hk (hl k)⟩
  have hrunning : ∀ r ∈ (after [(3, .work 0 (.error "case 3"))]).state.table.rows,
      r.status = .running := by decide +kernel
  refine one_verdict_run (s := emptySystem) ⟨rfl, rfl, rfl, rfl⟩
    (.snoc (.snoc (.snoc (.single (l := (1, .enqueue "j" "benchmark" none .null))
      ⟨⟨by decide, rfl⟩, hother _ _ (by decide) ?_⟩)
      (l := (2, .claim 0 [])) ⟨⟨by decide, rfl⟩, hother _ _ (by decide) ?_⟩)
      (l := (3, .work 0 (.error "case 3"))) ⟨⟨by decide +kernel, rfl⟩, hother _ _ (by decide +kernel) ?_⟩)
      (l := (4, .deliver 0)) ⟨⟨by decide +kernel, rfl⟩, by decide +kernel, ?_⟩)
  · intro k hk
    cases hk
  · intro k hk
    cases hk
  · intro k hk
    cases hk
  · -- the row is still held
    intro k _ req _ r hr _ hqueued
    rw [hrunning r hr] at hqueued
    cases hqueued

/-- **A retry is recorded twice.** The finish that put the job back in the queue is delivered again
and finds its stamp still on the row: one claim, two effects, two failures. -/
theorem retry_counts_twice :
    let s := after [(3, .work 0 (.error "case 3")), (4, .deliver 0), (5, .deliver 0)]
    (∃ ls, Sys.Run Step emptySystem ls s) ∧ s.state.runs.length = 1 ∧
      s.state.effects.map Effect.claim = [0, 0] ∧ s.state.table.rows.map Job.failures = [2] := by
  intro s
  constructor
  · exact ⟨_, Sys.Run.foldl exec_clock _ _ (by decide)⟩
  · decide +kernel

end JobSystem

end LightTrack
