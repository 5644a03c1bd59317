import LightTrack.Relay.Fencing
import Mathlib.Tactic.Linarith

/-! # The renewal cadence

A lease is answered with the interval at which its holder is to renew: a third of the lease that was
granted.  A renewal grants the default lease, whatever the first one was.

* `heldUntil_exec` : what one call does to a lease that has not run out,
* `cadence_keeps_lease_iff` : which leases survive two lost renewals in a row.
-/

namespace LightTrack

/-! ## The doors -/

/-- `MIN_LEASE_SECS`. -/
def MIN_LEASE_SECS : Int := 60

/-- `MAX_LEASE_SECS`. -/
def MAX_LEASE_SECS : Int := 1800

/-- `default_lease_secs`. -/
def defaultLeaseSecs : Int := 600

/-- `renew_secs`: a third of the lease. -/
def renewSecs (leaseSecs : Int) : ℕ := max ((max leaseSecs 3).toNat / 3) 1

/-- `req.lease_secs.clamp(MIN_LEASE_SECS, MAX_LEASE_SECS)`. -/
def grantedSecs (requested : Int) : Int := max MIN_LEASE_SECS (min requested MAX_LEASE_SECS)

/-- The call of `lease_tasks`. -/
def leaseTasks (device : String) (capabilities : List String) (requested : Int) (limit : ℕ) :
    RelayOp :=
  .lease device capabilities (grantedSecs requested) (max 1 (min limit 20))

/-- The call of `renew_lease`. -/
def renewLease (id : String) (fence : Time) : RelayOp :=
  .renew id fence (min MAX_LEASE_SECS defaultLeaseSecs)

/-- `LeaseResp::renew_secs`, as a duration. -/
def renewEvery (requested : Int) : Int := renewSecs (grantedSecs requested) * Time.second

theorem renewEvery_pos (requested : Int) : 0 < renewEvery requested := by
  have hsecs : 0 < renewSecs (grantedSecs requested) :=
    lt_of_lt_of_le Nat.one_pos (le_max_right _ _)
  unfold renewEvery Time.second
  omega

/-- Three intervals are no longer than the lease that was granted. -/
theorem three_renewSecs_le (requested : Int) :
    3 * (renewSecs (grantedSecs requested) : Int) ≤ grantedSecs requested := by
  unfold renewSecs grantedSecs MIN_LEASE_SECS MAX_LEASE_SECS
  omega

/-- Which requests are answered with a third of what a renewal grants, at most. -/
theorem three_renewSecs_iff (requested : Int) :
    3 * (renewSecs (grantedSecs requested) : Int) ≤ 600 ↔ requested ≤ 602 := by
  unfold renewSecs grantedSecs MIN_LEASE_SECS MAX_LEASE_SECS
  omega

namespace RelayQueue

open RelayTable

/-! ## A lease that has not run out -/

/-- The task is under the lease `fence`, which runs out at `deadline`. -/
def HeldUntil (q : RelayQueue) (id : String) (fence deadline : Time) : Prop :=
  ∃ r ∈ q.table.tasks, r.id = id ∧ r.leaseFence = some fence ∧ r.status.isLiveLease = true ∧
    r.leaseDeadline = some deadline

/-- A settle of the lease, or one that names no lease. -/
def Settles (id : String) (fence : Time) (op : RelayOp) : Prop :=
  ∃ outcome, op = .settle id none outcome ∨ op = .settle id (some fence) outcome

/-- When the lease runs out after a call. -/
def deadlineAfter (now : Time) (id : String) (fence deadline : Time) : RelayOp → Time
  | .renew id' fence' leaseSecs =>
    if id' = id ∧ fence' = fence then deadlineAt now leaseSecs else deadline
  | _ => deadline

variable {now fence deadline : Time} {id : String}

theorem deadlineAfter_renewLease : deadlineAfter now id fence deadline (renewLease id fence) =
    now + 600 * Time.second := by
  unfold renewLease deadlineAfter
  dsimp only
  rw [if_pos ⟨rfl, rfl⟩]
  simp [deadlineAt, MAX_LEASE_SECS, defaultLeaseSecs]

theorem deadlineAfter_of_ne {op : RelayOp} (h : ∀ leaseSecs, op ≠ .renew id fence leaseSecs) :
    deadlineAfter now id fence deadline op = deadline := by
  cases op with
  | renew id' fence' leaseSecs =>
    unfold deadlineAfter
    dsimp only
    rw [if_neg]
    rintro ⟨rfl, rfl⟩
    exact h leaseSecs rfl
  | _ => simp only [deadlineAfter]

theorem not_taken {r : RelayTask} (hlive : r.status.isLiveLease = true)
    (hdeadline : r.leaseDeadline = some deadline) (h : now ≤ deadline)
    (capabilities : List String) :
    leasable now capabilities r = false ∧ sweepable now r = false := by
  have hover : decide (deadline < now) = false := decide_eq_false (not_lt.2 h)
  rcases RelayTask.stopped_or_terminal_of_live hlive with hst | hst
  · simp [leasable, sweepable, hst, hdeadline, hover]
  · simp [leasable, sweepable, hst]

/-- **What one call does to a lease that has not run out**: it stays, and only its own renewal moves
its end. -/
theorem heldUntil_exec {op : RelayOp} {q : RelayQueue} (h : q.HeldUntil id fence deadline)
    (hnow : now ≤ deadline) (hunsettled : ¬ Settles id fence op) :
    (exec now op q).state.HeldUntil id fence (deadlineAfter now id fence deadline op) := by
  rcases h with ⟨r, hr, hid, hfence, hlive, hdeadline⟩
  have hfree := not_taken hlive hdeadline hnow
  cases op with
  | enqueue req =>
    refine ⟨r, ?_, hid, hfence, hlive, hdeadline⟩
    show r ∈ ((q.table.create (req.task now)).getD q.table).tasks
    unfold create
    split_ifs
    · exact hr
    · exact hr
    · exact List.mem_append_left _ hr
  | lease device capabilities leaseSecs max =>
    -- what is not leasable is not picked
    have hout : r.id ∉ q.table.leaseIds now capabilities max := by
      intro hin
      rcases List.mem_map.1 hin with ⟨r', hr', hsame⟩
      rcases List.mem_filter.1 (List.mem_mergeSort.1 (List.mem_of_mem_take hr')) with
        ⟨hmem, hleasable⟩
      rw [q.table.eq_of_id hmem hr hsame, (hfree capabilities).1] at hleasable
      cases hleasable
    exact ⟨r, List.mem_map.2 ⟨r, hr, if_neg hout⟩, hid, hfence, hlive, hdeadline⟩
  | sweepDead =>
    have hstay : sweepRow now r = r := by
      rw [sweepRow, (hfree []).2]
      simp
    exact ⟨r, List.mem_map.2 ⟨r, hr, hstay⟩, hid, hfence, hlive, hdeadline⟩
  | renew id' fence' leaseSecs =>
    unfold deadlineAfter
    dsimp only
    by_cases hown : id' = id ∧ fence' = fence
    · rcases hown with ⟨rfl, rfl⟩
      rw [if_pos ⟨rfl, rfl⟩]
      refine ⟨_, List.mem_map.2 ⟨r, hr, if_pos (holds_iff.2 ⟨hid, hfence, hlive⟩)⟩, hid, hfence,
        hlive, rfl⟩
    · rw [if_neg hown]
      have hother : ¬ holds id' fence' r = true := by
        rw [holds_iff, hid, hfence]
        rintro ⟨rfl, hsame, -⟩
        exact hown ⟨rfl, (Option.some.inj hsame).symm⟩
      exact ⟨r, List.mem_map.2 ⟨r, hr, if_neg hother⟩, hid, hfence, hlive, hdeadline⟩
  | updateProgress id' fence' progress =>
    by_cases hown : holds id' fence' r = true
    · exact ⟨_, List.mem_map.2 ⟨r, hr, if_pos hown⟩, hid, hfence, hlive, hdeadline⟩
    · exact ⟨r, List.mem_map.2 ⟨r, hr, if_neg hown⟩, hid, hfence, hlive, hdeadline⟩
  | settle id' fence' outcome =>
    refine ⟨r, ?_, hid, hfence, hlive, hdeadline⟩
    show r ∈ (q.table.settle now id' fence' outcome).2.tasks
    rcases settle_tasks q.table now id' fence' outcome with
      hsame | ⟨task, hmem, htask, -, hown, hmap⟩
    · rw [hsame]
      exact hr
    · rw [hmap]
      refine List.mem_map.2 ⟨r, hr, if_neg ?_⟩
      intro hrid
      -- the settled row would be this one, under this lease
      have heq : r = task := q.table.eq_of_id hr hmem (hrid.trans htask.symm)
      have hid' : id' = id := hrid.symm.trans hid
      subst hid'
      apply hunsettled
      cases fence' with
      | none => exact ⟨outcome, .inl rfl⟩
      | some f =>
        have hf := hown f rfl
        rw [← heq, hfence, Option.some.injEq] at hf
        exact ⟨outcome, .inr (by rw [hf])⟩
  | cancel project id' =>
    refine ⟨cancelRow now project id' r, List.mem_map_of_mem hr, ?_⟩
    unfold cancelRow
    split
    · refine ⟨hid, hfence, ?_, hdeadline⟩
      rcases RelayTask.stopped_or_terminal_of_live hlive with hst | hst
      · simp [hst, RelayStatus.isLiveLease]
      · simp [hst, RelayStatus.isLiveLease]
    · exact ⟨hid, hfence, hlive, hdeadline⟩

/-- A lease holds from when it is granted. -/
theorem heldUntil_lease {device : String} {capabilities : List String} {leaseSecs : Int} {max : ℕ}
    {q : RelayQueue} (h : id ∈ q.table.leaseIds now capabilities max) :
    (exec now (.lease device capabilities leaseSecs max) q).state.HeldUntil id now
      (deadlineAt now leaseSecs) := by
  rcases List.mem_map.1 h with ⟨r, hr, rfl⟩
  have hmem := (List.mem_filter.1 (List.mem_mergeSort.1 (List.mem_of_mem_take hr))).1
  exact ⟨_, List.mem_map.2 ⟨r, hmem, if_pos h⟩, rfl, rfl, rfl, rfl⟩

/-! ## A holder that keeps to the cadence -/

/-- At `now` at most the last two renewals that were due in a row have been lost: of any three, one
is among the calls. -/
def OnCadence (every granted : Int) (id : String) (ls : List (Time × RelayOp)) (now : Time) : Prop :=
  ∀ k : ℕ, granted + (k + 3) * every < now →
    ∃ j : ℕ, k < j ∧ j ≤ k + 3 ∧ (granted + j * every, renewLease id granted) ∈ ls

/-- The calls after a lease: it is renewed by nothing but the door, and its holder keeps to the
cadence until it settles. -/
structure KeptUp (every granted : Int) (id : String) (ls : List (Time × RelayOp)) : Prop where
  unsettled : ∀ l ∈ ls, ¬ Settles id granted l.2
  door : ∀ l ∈ ls, ∀ leaseSecs, l.2 = .renew id granted leaseSecs → l.2 = renewLease id granted
  onCadence : ∀ before l after, ls = before ++ l :: after → OnCadence every granted id before l.1

theorem KeptUp.init {every granted : Int} {ls : List (Time × RelayOp)} {l : Time × RelayOp}
    (h : KeptUp every granted id (ls ++ [l])) : KeptUp every granted id ls where
  unsettled := fun l' hl' => h.unsettled l' (List.mem_append_left _ hl')
  door := fun l' hl' => h.door l' (List.mem_append_left _ hl')
  onCadence := fun before l' after heq =>
    h.onCadence before l' (after ++ [l]) (by rw [heq, List.append_assoc, List.cons_append])

/-- **What renewals buy**: if three intervals after each renewal, and after the grant, the lease has
not run out, it has not run out while the cadence is kept. -/
theorem le_of_onCadence {every granted deadline now : Int} (renewed : ℕ → Prop) (hpos : 0 < every)
    (hfirst : (∀ j, ¬ renewed j) → granted + 3 * every ≤ deadline)
    (hnext : ∀ j, renewed j → granted + j * every + 3 * every ≤ deadline)
    (hpast : ∀ j, renewed j → granted + j * every ≤ now)
    (hcadence : ∀ k : ℕ, granted + (k + 3) * every < now → ∃ j, k < j ∧ renewed j) :
    now ≤ deadline := by
  by_contra hover
  have hover := not_le.1 hover
  -- otherwise there is no last renewal
  have hmore : ∀ n : ℕ, ∃ j, n ≤ j ∧ renewed j := by
    intro n
    induction n with
    | zero =>
      by_cases hnone : ∀ j, ¬ renewed j
      · have hdue := hfirst hnone
        rcases hcadence 0 (by push_cast; linarith) with ⟨j, -, hj⟩
        exact ⟨j, Nat.zero_le j, hj⟩
      · rcases not_forall_not.1 hnone with ⟨j, hj⟩
        exact ⟨j, Nat.zero_le j, hj⟩
    | succ n ih =>
      rcases ih with ⟨j, hle, hj⟩
      have hdue := hnext j hj
      rcases hcadence j (by linarith) with ⟨j', hlt, hj'⟩
      exact ⟨j', by omega, hj'⟩
  rcases hmore ((now - granted).toNat + 1) with ⟨j, hle, hj⟩
  have hlate := hpast j hj
  have hgrow : (j : Int) ≤ j * every := le_mul_of_one_le_right (Int.natCast_nonneg j) hpos
  omega

/-- What a run keeps of a lease that is renewed. -/
structure Renewed (requested granted : Int) (id : String) (ls : List (Time × RelayOp))
    (a : Sys.Timed Time RelayQueue) (deadline : Int) : Prop where
  held : a.state.HeldUntil id granted deadline
  started : granted ≤ a.clock
  after : ∀ l ∈ ls, granted ≤ l.1
  past : ∀ l ∈ ls, l.1 ≤ a.clock
  unrenewed : (∀ now, (now, renewLease id granted) ∉ ls) →
    deadline = granted + grantedSecs requested * Time.second
  renewed : ∀ now : Int, (now, renewLease id granted) ∈ ls → now + 600 * Time.second ≤ deadline

theorem Renewed.le_deadline {requested granted now deadline : Int} {ls : List (Time × RelayOp)}
    {a : Sys.Timed Time RelayQueue} (h : Renewed requested granted id ls a deadline)
    (hshort : 3 * (renewSecs (grantedSecs requested) : Int) ≤ 600) (hclock : a.clock ≤ now)
    (hcadence : OnCadence (renewEvery requested) granted id ls now) : now ≤ deadline := by
  have hthree : 3 * renewEvery requested ≤ 600 * Time.second := by
    unfold renewEvery Time.second
    omega
  refine @le_of_onCadence (renewEvery requested) granted deadline now
    (fun j => (granted + j * renewEvery requested, renewLease id granted) ∈ ls)
    (renewEvery_pos requested) ?_ ?_ ?_ ?_
  · intro _
    by_cases hnone : ∀ t, (t, renewLease id granted) ∉ ls
    · have hlease := three_renewSecs_le requested
      rw [h.unrenewed hnone]
      unfold renewEvery Time.second
      omega
    · rcases not_forall_not.1 hnone with ⟨t, ht⟩
      have hstart : granted ≤ t := h.after _ ht
      have hend := h.renewed t ht
      linarith
  · intro j hj
    have hend := h.renewed _ hj
    linarith
  · intro j hj
    exact (h.past _ hj).trans hclock
  · intro k hk
    rcases hcadence k hk with ⟨j, hlt, -, hj⟩
    exact ⟨j, hlt, hj⟩

/-- A run after a lease keeps it, if three intervals are within what a renewal grants. -/
theorem renewed_run {requested granted : Int} {device : String} {capabilities : List String}
    {limit : ℕ} {q : RelayQueue} {s' : Sys.Timed Time RelayQueue} {ls : List (Time × RelayOp)}
    (hshort : 3 * (renewSecs (grantedSecs requested) : Int) ≤ 600)
    (hleased : id ∈ (leaseTasks device capabilities requested limit).leases granted q.table)
    (hrun : Sys.Run Step (exec granted (leaseTasks device capabilities requested limit) q) ls s')
    (hkept : KeptUp (renewEvery requested) granted id ls) :
    ∃ deadline, Renewed requested granted id ls s' deadline := by
  revert hkept
  refine hrun.trace_invariant (I := fun ls a => KeptUp (renewEvery requested) granted id ls →
    ∃ deadline, Renewed requested granted id ls a deadline) ?_ ?_
  · intro _
    refine ⟨_, heldUntil_lease hleased, le_rfl, by simp, by simp, ?_, by simp⟩
    intro _
    have hpos : 0 ≤ grantedSecs requested := by
      unfold grantedSecs MIN_LEASE_SECS
      omega
    rw [deadlineAt, max_eq_left hpos]
  · rintro ls a ⟨now, op⟩ b ⟨hclock, rfl⟩ ih hkept
    rcases ih hkept.init with ⟨deadline, h⟩
    have hnow : now ≤ deadline :=
      h.le_deadline hshort hclock (hkept.onCadence ls (now, op) [] rfl)
    have hlast : (now, op) ∈ ls ++ [(now, op)] :=
      List.mem_append_right _ (List.mem_singleton.2 rfl)
    have hheld := heldUntil_exec h.held hnow (hkept.unsettled _ hlast)
    have hclock' : (exec now op a.state).clock = now := by cases op <;> rfl
    have hstart : granted ≤ now := h.started.trans hclock
    refine ⟨_, hheld, hstart.trans_eq hclock'.symm, ?_, ?_, ?_, ?_⟩
    · intro l hl
      rcases List.mem_append.1 hl with hl | hl
      · exact h.after l hl
      · rw [List.mem_singleton.1 hl]
        exact hstart
    · intro l hl
      rw [hclock']
      rcases List.mem_append.1 hl with hl | hl
      · exact (h.past l hl).trans hclock
      · rw [List.mem_singleton.1 hl]
    · intro hnone
      have hother : ∀ leaseSecs, op ≠ .renew id granted leaseSecs := by
        intro leaseSecs heq
        have hdoor : op = renewLease id granted := hkept.door _ hlast leaseSecs heq
        subst hdoor
        exact hnone now hlast
      rw [deadlineAfter_of_ne hother, ← h.unrenewed fun t ht =>
        hnone t (List.mem_append_left _ ht)]
    · intro t ht
      by_cases hrenew : ∃ leaseSecs, op = .renew id granted leaseSecs
      · -- a renewal never brings the end forward to before what an earlier one granted
        rcases hrenew with ⟨leaseSecs, heq⟩
        have hdoor : op = renewLease id granted := hkept.door _ hlast leaseSecs heq
        have hle : t ≤ now := by
          rcases List.mem_append.1 ht with ht | ht
          · exact (h.past _ ht).trans hclock
          · exact (Prod.mk.inj (List.mem_singleton.1 ht)).1.le
        rw [hdoor, deadlineAfter_renewLease]
        exact Int.add_le_add_right hle _
      · have hother : ∀ leaseSecs, op ≠ .renew id granted leaseSecs := fun leaseSecs heq =>
          hrenew ⟨leaseSecs, heq⟩
        rw [deadlineAfter_of_ne hother]
        rcases List.mem_append.1 ht with ht | ht
        · exact h.renewed t ht
        · exact absurd (Prod.mk.inj (List.mem_singleton.1 ht)).2.symm (hother _)

/-! ## Which leases are kept -/

/-- A device that asks for `requested` seconds and renews as it is told keeps the lease: in every run
in which at most two renewals in a row are lost, no device can lease the task again, and no sweep
takes it, before it settles. -/
def CadenceKeepsLease (requested : Int) : Prop :=
  ∀ (s₀ s s' : Sys.Timed Time RelayQueue) (ls₀ ls : List (Time × RelayOp)) (device : String)
    (capabilities : List String) (limit : ℕ) (granted now : Time) (id : String),
    Init s₀ → Sys.Run Step s₀ ls₀ s → s.clock ≤ granted →
    id ∈ (leaseTasks device capabilities requested limit).leases granted s.state.table →
    Sys.Run Step (exec granted (leaseTasks device capabilities requested limit) s.state) ls s' →
    KeptUp (renewEvery requested) granted id ls →
    s'.clock ≤ now → OnCadence (renewEvery requested) granted id ls now →
    ∀ r ∈ s'.state.table.tasks, r.id = id → r.leaseFence = some granted ∧
      (∀ capabilities', leasable now capabilities' r = false) ∧ sweepable now r = false

theorem cadenceKeepsLease_of_le {requested : Int} (h : requested ≤ 602) :
    CadenceKeepsLease requested := by
  intro s₀ s s' ls₀ ls device capabilities limit granted now id _ _ _ hleased hrun hkept hclock
    hcadence r hr hid
  have hshort := (three_renewSecs_iff requested).2 h
  rcases renewed_run hshort hleased hrun hkept with ⟨deadline, hrenewed⟩
  have hnow := hrenewed.le_deadline hshort hclock hcadence
  rcases hrenewed.held with ⟨r', hr', hid', hfence, hlive, hdeadline⟩
  have heq : r = r' := s'.state.table.eq_of_id hr hr' (hid.trans hid'.symm)
  subst heq
  have hfree := not_taken hlive hdeadline hnow
  exact ⟨hfence, fun capabilities' => (hfree capabilities').1, (hfree []).2⟩

/-- One task, leased by the first device that asks. -/
def oneTask : EnqueueReq where
  id := "t"
  projectId := "p"
  actionType := "xprice/refresh"

/-- The queue with the one task. -/
def oneQueued : RelayQueue := (exec 0 (.enqueue oneTask) emptyQueue.state).state

/-- The queue after the task was leased and renewed once, an interval later. -/
def onceRenewed (requested : Int) : Sys.Timed Time RelayQueue :=
  exec (renewEvery requested) (renewLease "t" 0)
    (exec 0 (leaseTasks "d1" [] requested 1) oneQueued).state

/-- The calls after the lease: the renewal after one interval. -/
def oneRenewal (requested : Int) : List (Time × RelayOp) :=
  [(renewEvery requested, renewLease "t" 0)]

theorem keptUp_oneRenewal (requested : Int) :
    KeptUp (renewEvery requested) 0 "t" (oneRenewal requested) := by
  have hone : ∀ l ∈ oneRenewal requested, l = (renewEvery requested, renewLease "t" 0) :=
    fun l hl => List.mem_singleton.1 hl
  have hpos := renewEvery_pos requested
  constructor
  · intro l hl
    rw [hone l hl]
    rintro ⟨outcome, hsettle | hsettle⟩
    · cases hsettle
    · cases hsettle
  · intro l hl leaseSecs _
    rw [hone l hl]
  · -- nothing was due before it
    intro before l after heq k hk
    have hmem : l ∈ oneRenewal requested := by
      rw [heq]
      exact List.mem_append_right _ List.mem_cons_self
    have hover : (0 : Int) + (k + 3) * renewEvery requested < renewEvery requested := by
      rw [hone l hmem] at hk
      exact hk
    have hk' : (0 : Int) ≤ k * renewEvery requested :=
      Int.mul_nonneg (Int.natCast_nonneg k) hpos.le
    linarith

/-- Until the next renewal but three is due, the two lost ones are the last two. -/
theorem onCadence_oneRenewal {requested now : Int} (h : now ≤ 4 * renewEvery requested) :
    OnCadence (renewEvery requested) 0 "t" (oneRenewal requested) now := by
  intro k hk
  have hover : (0 : Int) + (k + 3) * renewEvery requested < now := hk
  have hpos := renewEvery_pos requested
  cases k with
  | zero => exact ⟨1, by omega, by omega, by simp [oneRenewal]⟩
  | succ k =>
    have hk' : (0 : Int) ≤ k * renewEvery requested :=
      Int.mul_nonneg (Int.natCast_nonneg k) hpos.le
    push_cast at hover
    linarith

/-- The leased task after its renewal. -/
theorem onceRenewed_row (requested : Int) : ∃ r ∈ (onceRenewed requested).state.table.tasks,
    r.id = "t" ∧ r.status = .leased ∧ r.failures = 0 ∧ r.maxAttempts = 4 ∧ r.staleReclaims = 0 ∧
      r.leaseDeadline =
        some (deadlineAt (renewEvery requested) (min MAX_LEASE_SECS defaultLeaseSecs)) := by
  have hleased : "t" ∈ oneQueued.table.leaseIds 0 [] 1 := by decide +kernel
  have hrow : leaseRow "d1" 0 (deadlineAt 0 (grantedSecs requested)) (oneTask.task 0) ∈
      (exec 0 (leaseTasks "d1" [] requested 1) oneQueued).state.table.tasks :=
    List.mem_map.2 ⟨oneTask.task 0, List.mem_singleton.2 rfl, if_pos hleased⟩
  exact ⟨_, List.mem_map.2 ⟨_, hrow, if_pos (holds_iff.2 ⟨rfl, rfl, rfl⟩)⟩, rfl, rfl, rfl, rfl, rfl,
    rfl⟩

/-- A lease that ran out can be taken. -/
theorem leasable_of_lapsed {r : RelayTask} (hst : r.status = .leased) (hfailures : r.failures = 0)
    (hmax : r.maxAttempts = 4) (hstale : r.staleReclaims = 0)
    (hdeadline : r.leaseDeadline = some deadline) (h : deadline < now) :
    leasable now [] r = true := by
  simp [leasable, hst, hfailures, hmax, hstale, hdeadline, capabilityFilter, h,
    RELAY_MAX_STALE_RECLAIMS]

theorem renewal_end (requested : Int) :
    deadlineAt (renewEvery requested) (min MAX_LEASE_SECS defaultLeaseSecs) =
      renewEvery requested + 600 * Time.second := by
  simp [deadlineAt, MAX_LEASE_SECS, defaultLeaseSecs]

theorem second_lt_three_renewEvery {requested : Int} (h : 602 < requested) :
    600 * Time.second + 1 ≤ 3 * renewEvery requested := by
  have hlong : 600 < 3 * (renewSecs (grantedSecs requested) : Int) := by
    by_contra hle
    have := (three_renewSecs_iff requested).1 (not_lt.1 hle)
    omega
  unfold renewEvery Time.second
  omega

/-- **The second lost renewal loses the lease**, where three intervals are longer than what a
renewal grants: the first renewal cuts the lease down to the default. -/
theorem not_cadenceKeepsLease_of_lt {requested : Int} (h : 602 < requested) :
    ¬ CadenceKeepsLease requested := by
  intro hkeeps
  have hthree := second_lt_three_renewEvery h
  have hinit : Init emptyQueue := ⟨rfl, fun r hr => absurd hr List.not_mem_nil⟩
  have hfirst : Sys.Run Step emptyQueue [(0, .enqueue oneTask)] ⟨0, oneQueued⟩ :=
    .single ⟨le_rfl, rfl⟩
  have hleased : "t" ∈ (leaseTasks "d1" [] requested 1).leases 0 oneQueued.table := by
    show "t" ∈ oneQueued.table.leaseIds 0 [] 1
    decide +kernel
  -- the renewal after one interval arrives, the next two do not
  have hrun : Sys.Run Step (exec 0 (leaseTasks "d1" [] requested 1) oneQueued)
      (oneRenewal requested) (onceRenewed requested) :=
    .single ⟨(renewEvery_pos requested).le, rfl⟩
  have hlate : ∃ now, (onceRenewed requested).clock ≤ now ∧ now ≤ 4 * renewEvery requested ∧
      renewEvery requested + 600 * Time.second < now := by
    refine ⟨4 * renewEvery requested, ?_, le_rfl, ?_⟩
    · show renewEvery requested ≤ 4 * renewEvery requested
      have hpos := renewEvery_pos requested
      omega
    · omega
  rcases hlate with ⟨now, hclock, hfour, hover⟩
  rcases onceRenewed_row requested with ⟨r, hr, hid, hst, hfailures, hmax, hstale, hdeadline⟩
  have hkept := hkeeps emptyQueue ⟨0, oneQueued⟩ _ _ _ "d1" [] 1 0 now "t" hinit hfirst le_rfl
    hleased hrun (keptUp_oneRenewal requested) hclock (onCadence_oneRenewal hfour) r hr hid
  rw [renewal_end] at hdeadline
  have hfree := hkept.2.1 []
  rw [leasable_of_lapsed hst hfailures hmax hstale hdeadline hover] at hfree
  cases hfree

/-- **Two lost renewals are survived** exactly where the lease that was asked for is no longer than a
renewal grants, up to the rounding of its third. -/
theorem cadence_keeps_lease_iff (requested : Int) :
    CadenceKeepsLease requested ↔ requested ≤ 602 := by
  constructor
  · intro hkeeps
    by_contra hlong
    exact not_cadenceKeepsLease_of_lt (not_le.1 hlong) hkeeps
  · exact cadenceKeepsLease_of_le

/-- A lease of half an hour is lost after ten minutes without a renewal. -/
theorem long_lease_lost : ¬ CadenceKeepsLease 1800 := not_cadenceKeepsLease_of_lt (by decide)

end RelayQueue

end LightTrack
