import LightTrack.Lib.Run
import LightTrack.Lib.Workers
import Mathlib.Data.Rat.Floor

/-! # The cells of a comparison

A comparison runs one cell for each target and case.  Workers take the cells one after the other; a
cell is skipped once the money of the run is spent, once an operator has stopped the run, or while
its target does not answer and another one still does.

Every read and every write of what the workers share is a step of its own.

* `matrix_accounted` : in every interleaving each cell is computed once, the ledger is what the
  cells cost, and it runs past the ceiling by no more than the cells under way,
* `dead_target_bounded` : a target that never answers is tried until its breaker opens, and then by
  no more workers than there are.
-/

namespace LightTrack.Runner

/-! ## One cell -/

/-- What a generation or a verdict cost. -/
structure Paid where
  cost : ℚ
  score : ℚ := 0

/-- The two calls of one candidate, with what they would answer. -/
structure Candidate where
  generation : Except String Paid
  judged : Except String Paid

/-- `Cell` -/
structure Cell where
  candScores : List ℚ := []
  genCost : ℚ := 0
  judgeCost : ℚ := 0
  errorMsg : Option String := none
  skipped : Bool := false
  filtered : Bool := false
  breakerOverride : Bool := false
  deriving DecidableEq

namespace Cell

/-- The sampling loop of `compute_cell`: what has been paid for stays in the cell. Also whether a
generation failed. -/
def sample (cell : Cell) : List Candidate → Cell × Bool
  | [] => (cell, false)
  | c :: cs =>
    match c.generation with
    | .error e => ({ cell with errorMsg := some ("generation error — " ++ e) }, true)
    | .ok gen =>
      let cell := { cell with genCost := cell.genCost + gen.cost }
      match c.judged with
      | .error e => ({ cell with errorMsg := some ("judge error — " ++ e) }, false)
      | .ok jr =>
        sample { cell with
          judgeCost := cell.judgeCost + jr.cost
          candScores := cell.candScores ++ [jr.score] } cs

/-- A cell that is sampled stays one that was run, and keeps why it was tried. -/
theorem sample_skipped (cs : List Candidate) (cell : Cell) :
    (cell.sample cs).1.skipped = cell.skipped := by
  fun_induction sample cell cs with
  | case1 => rfl
  | case2 => rfl
  | case3 => rfl
  | case4 _ _ _ _ _ _ _ _ ih => exact ih

theorem sample_filtered (cs : List Candidate) (cell : Cell) :
    (cell.sample cs).1.filtered = cell.filtered := by
  fun_induction sample cell cs with
  | case1 => rfl
  | case2 => rfl
  | case3 => rfl
  | case4 _ _ _ _ _ _ _ _ ih => exact ih

theorem sample_override (cs : List Candidate) (cell : Cell) :
    (cell.sample cs).1.breakerOverride = cell.breakerOverride := by
  fun_induction sample cell cs with
  | case1 => rfl
  | case2 => rfl
  | case3 => rfl
  | case4 _ _ _ _ _ _ _ _ ih => exact ih

/-- A cell that was not run for want of money, or because the run was stopped. -/
def stopped : Cell := { skipped := true }

/-- A cell that was not run for the health of its target. -/
def pruned : Cell := { skipped := true, filtered := true }

/-- A cell that was not run. -/
def unrun (cell : Cell) : Bool := cell.filtered || cell.skipped

/-- `Budget::spend`, in millionths of a dollar: nothing for a cost that is not positive. -/
def micros (usd : ℚ) : ℕ := if 0 < usd then (round (usd * 1000000)).toNat else 0

/-- What a cell adds to the ledger. -/
def charge (cell : Cell) : ℕ := micros (cell.genCost + cell.judgeCost)

@[simp]
theorem charge_stopped : stopped.charge = 0 := by simp [charge, stopped, micros]

@[simp]
theorem charge_pruned : pruned.charge = 0 := by simp [charge, pruned, micros]

/-- A cell that was tried because its target's breaker was closed. -/
def ordinary (cell : Cell) : Bool := !cell.skipped && !cell.breakerOverride

end Cell

/-! ## The run -/

/-- What a run is set up with. -/
structure Setup where
  targets : ℕ
  cases : ℕ
  /-- how many workers were asked for -/
  asked : ℕ
  /-- how many candidates a cell draws -/
  ng : ℕ
  /-- the ceiling, in millionths of a dollar -/
  limit : Option ℕ
  /-- how many failures in a row open a breaker -/
  threshold : ℕ

namespace Setup

variable (c : Setup)

/-- How many cells there are. -/
abbrev total : ℕ := c.targets * c.cases

/-- How many workers `parallel_map` starts. -/
def jobs : ℕ := min (max c.asked 1) (max c.total 1)

theorem jobs_pos : 0 < c.jobs :=
  lt_min (lt_max_of_lt_right Nat.one_pos) (lt_max_of_lt_right Nat.one_pos)

/-- The target of a cell. -/
def targetOf (i : Fin c.total) : ℕ := i.val / max c.cases 1

end Setup

/-- How many failed generations in a row open a target's breaker. -/
def OPEN_AFTER_FAILURES : ℕ := 3

/-- `Budget::new`: no ceiling where there is no positive limit. -/
def limitMicros (limitUsd : ℚ) : Option ℕ :=
  if 0 < limitUsd then some (round (limitUsd * 1000000)).toNat else none

/-- Where a worker is with the cell it has taken. -/
inductive Stage (n : ℕ) where
  | idle
  /-- `budget.exhausted()`, -/
  | looking (i : Fin n)
  /-- `ctl.cancelled()`, -/
  | asking (i : Fin n)
  /-- and the second look, once the cell is to be skipped. -/
  | halting (i : Fin n)
  | admitting (i : Fin n)
  /-- The breaker is open: the breakers are read one after the other. -/
  | scanning (i : Fin n) (k : ℕ)
  | paying (i : Fin n) (override : Bool)
  | charging (i : Fin n) (cell : Cell) (failed : Bool)
  | recording (i : Fin n) (cell : Cell) (failed : Bool)
  | storing (i : Fin n) (cell : Cell)
  | done
  deriving DecidableEq

/-- What the workers share, and where each of them is. -/
structure Matrix (c : Setup) where
  workers : Fin c.jobs → Stage c.total
  next : ℕ := 0
  spent : ℕ := 0
  halted : Bool := false
  cancelled : Bool := false
  /-- the failures of each target since it last answered -/
  consecutive : ℕ → ℕ := fun _ => 0
  slots : Fin c.total → Option Cell := fun _ => none

namespace Matrix

variable {c : Setup}

/-- `exhausted` -/
def exhausted (m : Matrix c) : Bool := c.limit.any fun limit => decide (limit ≤ m.spent)

/-- `is_open` -/
def isOpen (m : Matrix c) (ti : ℕ) : Bool := decide (max c.threshold 1 ≤ m.consecutive ti)

/-- A worker moves on. -/
def become (m : Matrix c) (w : Fin c.jobs) (stage : Stage c.total) : Matrix c :=
  { m with workers := Function.update m.workers w stage }

/-- `record` -/
def record (m : Matrix c) (ti : ℕ) (failed : Bool) : Matrix c :=
  { m with
    consecutive := Function.update m.consecutive ti (if failed then m.consecutive ti + 1 else 0) }

/-- The next step of a worker that waits for nobody. -/
def go (m : Matrix c) (w : Fin c.jobs) : Option (Matrix c) :=
  match m.workers w with
  | .idle =>
    let taken : Matrix c := { m with next := m.next + 1 }
    if h : m.next < c.total then some (taken.become w (.looking ⟨m.next, h⟩))
    else some (taken.become w .done)
  | .looking i => some (m.become w (if m.exhausted then .halting i else .asking i))
  | .asking i => some (m.become w (if m.cancelled then .halting i else .admitting i))
  | .halting i =>
    let marked : Matrix c := { m with halted := m.halted || m.exhausted }
    some (marked.become w (.storing i .stopped))
  | .admitting i =>
    some (m.become w (if m.isOpen (c.targetOf i) then .scanning i 0 else .paying i false))
  | .scanning i k =>
    if k < c.targets then
      some (m.become w (if m.isOpen k then .scanning i (k + 1) else .storing i .pruned))
    else some (m.become w (.paying i true))
  | .charging i cell failed =>
    let charged : Matrix c := { m with spent := m.spent + cell.charge }
    some (charged.become w (.recording i cell failed))
  | .recording i cell failed => some ((m.record (c.targetOf i) failed).become w (.storing i cell))
  | .storing i cell =>
    let stored : Matrix c := { m with slots := Function.update m.slots i (some cell) }
    some (stored.become w .idle)
  | .paying .. => none
  | .done => none

end Matrix

/-- A step of a run. -/
inductive Turn (c : Setup) where
  | go (w : Fin c.jobs)
  /-- The calls of a cell were answered. -/
  | pay (w : Fin c.jobs) (answers : List Candidate)
  | cancel

namespace Matrix

variable {c : Setup}

def step (m : Matrix c) : Turn c → Option (Matrix c)
  | .go w => m.go w
  | .pay w answers =>
    match m.workers w with
    | .paying i override =>
      let sampled := Cell.sample { breakerOverride := override } answers
      if answers.length = c.ng then some (m.become w (.charging i sampled.1 sampled.2)) else none
    | _ => none
  | .cancel => some { m with cancelled := true }

end Matrix

/-- The steps of `parallel_map` over the cells. -/
def MatrixStep (c : Setup) (m : Matrix c) (t : Turn c) (m' : Matrix c) : Prop := m.step t = some m'

/-- All workers are free, and nothing has been taken. -/
def Matrix.new (c : Setup) : Matrix c := { workers := fun _ => .idle }

/-! ## What a step can do -/

/-- A worker goes on without touching what is shared. -/
inductive Shift {c : Setup} (m : Matrix c) : Stage c.total → Stage c.total → Prop
  | looked {i : Fin c.total} : m.exhausted = false → Shift m (.looking i) (.asking i)
  | broke {i : Fin c.total} : m.exhausted = true → Shift m (.looking i) (.halting i)
  | asked {i : Fin c.total} : m.cancelled = false → Shift m (.asking i) (.admitting i)
  | stopped {i : Fin c.total} : m.cancelled = true → Shift m (.asking i) (.halting i)
  | admitted {i : Fin c.total} : m.isOpen (c.targetOf i) = false →
      Shift m (.admitting i) (.paying i false)
  | doubted {i : Fin c.total} : Shift m (.admitting i) (.scanning i 0)
  | scanned {i : Fin c.total} {k : ℕ} : Shift m (.scanning i k) (.scanning i (k + 1))
  | pruned {i : Fin c.total} {k : ℕ} : Shift m (.scanning i k) (.storing i .pruned)
  | overrode {i : Fin c.total} {k : ℕ} : Shift m (.scanning i k) (.paying i true)

/-- Everything a step can do to a run. -/
inductive Moved {c : Setup} (m : Matrix c) : Turn c → Matrix c → Prop
  | took {w : Fin c.jobs} {i : Fin c.total} : m.workers w = .idle → i.val = m.next →
      Moved m (.go w) (Matrix.become { m with next := m.next + 1 } w (.looking i))
  | left {w : Fin c.jobs} : m.workers w = .idle → c.total ≤ m.next →
      Moved m (.go w) (Matrix.become { m with next := m.next + 1 } w .done)
  | shifted {w : Fin c.jobs} {old new : Stage c.total} : m.workers w = old → Shift m old new →
      Moved m (.go w) (m.become w new)
  | halted {w : Fin c.jobs} {i : Fin c.total} : m.workers w = .halting i →
      Moved m (.go w)
        (Matrix.become { m with halted := m.halted || m.exhausted } w (.storing i .stopped))
  | paid {w : Fin c.jobs} {i : Fin c.total} {override : Bool} (answers : List Candidate) :
      m.workers w = .paying i override →
        Moved m (.pay w answers)
          (m.become w (.charging i (Cell.sample { breakerOverride := override } answers).1
            (Cell.sample { breakerOverride := override } answers).2))
  | charged {w : Fin c.jobs} {i : Fin c.total} {cell : Cell} {failed : Bool} :
      m.workers w = .charging i cell failed →
        Moved m (.go w)
          (Matrix.become { m with spent := m.spent + cell.charge } w (.recording i cell failed))
  | recorded {w : Fin c.jobs} {i : Fin c.total} {cell : Cell} {failed : Bool} :
      m.workers w = .recording i cell failed →
        Moved m (.go w) ((m.record (c.targetOf i) failed).become w (.storing i cell))
  | stored {w : Fin c.jobs} {i : Fin c.total} {cell : Cell} : m.workers w = .storing i cell →
      Moved m (.go w)
        (Matrix.become { m with slots := Function.update m.slots i (some cell) } w .idle)
  | cancelled : Moved m .cancel { m with cancelled := true }

theorem moved_of_go {c : Setup} {m m' : Matrix c} {w : Fin c.jobs} (h : m.go w = some m') :
    Moved m (.go w) m' := by
  unfold Matrix.go at h
  cases hw : m.workers w with
  | idle =>
    rw [hw] at h
    dsimp only at h
    split_ifs at h with hnext
    · cases h
      exact .took hw rfl
    · cases h
      exact .left hw (not_lt.1 hnext)
  | looking i =>
    rw [hw] at h
    cases h
    cases hspent : m.exhausted with
    | true => exact .shifted hw (.broke hspent)
    | false => exact .shifted hw (.looked hspent)
  | asking i =>
    rw [hw] at h
    cases h
    cases hstop : m.cancelled with
    | true => exact .shifted hw (.stopped hstop)
    | false => exact .shifted hw (.asked hstop)
  | halting i =>
    rw [hw] at h
    cases h
    exact .halted hw
  | admitting i =>
    rw [hw] at h
    cases h
    cases hopen : m.isOpen (c.targetOf i) with
    | true => exact .shifted hw .doubted
    | false => exact .shifted hw (.admitted hopen)
  | scanning i k =>
    rw [hw] at h
    dsimp only at h
    split_ifs at h with hk hopen
    · cases h
      exact .shifted hw .scanned
    · cases h
      exact .shifted hw .pruned
    · cases h
      exact .shifted hw .overrode
  | paying i override =>
    rw [hw] at h
    cases h
  | charging i cell failed =>
    rw [hw] at h
    cases h
    exact .charged hw
  | recording i cell failed =>
    rw [hw] at h
    cases h
    exact .recorded hw
  | storing i cell =>
    rw [hw] at h
    cases h
    exact .stored hw
  | done =>
    rw [hw] at h
    cases h

theorem moved_of_step {c : Setup} {m m' : Matrix c} {t : Turn c} (h : MatrixStep c m t m') :
    Moved m t m' := by
  unfold MatrixStep at h
  cases t with
  | go w => exact moved_of_go h
  | pay w answers =>
    dsimp only [Matrix.step] at h
    split at h
    · next i override hw =>
      split_ifs at h
      cases h
      exact .paid answers hw
    · cases h
  | cancel =>
    cases h
    exact .cancelled

/-! ## What every run keeps -/

namespace Stage

variable {n : ℕ}

/-- A worker has this cell. -/
def holds (i : Fin n) : Stage n → ℕ
  | looking j | asking j | halting j | admitting j | scanning j _ | paying j _ | charging j _ _
  | recording j _ _ | storing j _ => if j = i then 1 else 0
  | idle | done => 0

/-- What the ledger has of the cell that a worker has not put down yet. -/
def settled : Stage n → ℕ
  | recording _ cell _ | storing _ cell => cell.charge
  | _ => 0

/-- A worker found money left, and has not entered in the ledger what its cell cost. -/
def underway : Stage n → ℕ
  | asking _ | admitting _ | scanning .. | paying .. | charging .. => 1
  | _ => 0

/-- The cell of a worker that has paid for it. -/
def cell? : Stage n → Option Cell
  | charging _ cell _ | recording _ cell _ | storing _ cell => some cell
  | _ => none

theorem underway_le_one (s : Stage n) : s.underway ≤ 1 := by cases s <;> simp [underway]

end Stage

namespace Matrix

variable {c : Setup} (m : Matrix c)

/-- The money of the run is spent. -/
def Reached : Prop := ∃ limit ∈ c.limit, limit ≤ m.spent

/-- The run is to be stopped. -/
def Stopped : Prop := m.Reached ∨ m.cancelled = true

/-- A cell that has been computed: put down, or still with its worker. -/
def Has (cell : Cell) : Prop :=
  (∃ i, m.slots i = some cell) ∨ ∃ w, (m.workers w).cell? = some cell

/-- No cell so far cost more. -/
def Within (most : ℕ) : Prop := ∀ cell, m.Has cell → cell.charge ≤ most

/-- The run was stopped, and says so. -/
def Halted : Prop := m.halted = true ∨ m.cancelled = true

/-- A cell that was not run says why. -/
def Explained (cell : Cell) : Prop :=
  cell.unrun = true → (cell = .stopped ∧ m.Halted) ∨ cell = .pruned

/-- What holds of a run at any time. -/
structure Kept : Prop where
  /-- the cells taken so far are with one worker each, or put down -/
  claimed : ∀ i, (if (m.slots i).isSome then 1 else 0) + ∑ w, (m.workers w).holds i =
    if i.val < m.next then 1 else 0
  finished : ∀ w, m.workers w = .done → c.total ≤ m.next
  /-- the ledger is what the cells cost -/
  ledger : m.spent = ∑ i, ((m.slots i).map Cell.charge).getD 0 + ∑ w, (m.workers w).settled
  ceiling : ∀ limit ∈ c.limit, ∀ most, m.Within most →
    Workers.Under c.jobs limit most m.spent (∑ w, (m.workers w).underway)
  halting : ∀ w i, m.workers w = .halting i → m.Stopped
  halted : m.halted = true → m.Reached ∧ m.Has .stopped
  explained : ∀ cell, m.Has cell → m.Explained cell

theorem exhausted_iff_reached : m.exhausted = true ↔ m.Reached := by
  unfold exhausted Reached
  rw [Option.any_eq_true]
  simp

end Matrix

variable {c : Setup} {m m' : Matrix c} {t : Turn c}

namespace Shift

variable {old new : Stage c.total} (h : Shift m old new)

include h

/-- The worker stays with its cell, -/
theorem holds (i : Fin c.total) : old.holds i = new.holds i := by cases h <;> rfl

/-- and has none that was computed before. -/
theorem cell? : old.cell? = none := by cases h <;> rfl

theorem settled : old.settled = new.settled := by
  cases h with
  | pruned => exact Cell.charge_pruned.symm
  | _ => rfl

end Shift

theorem Matrix.record_workers (ti : ℕ) (failed : Bool) :
    (m.record ti failed).workers = m.workers := rfl

theorem become_self (w : Fin c.jobs) (stage : Stage c.total) : (m.become w stage).workers w = stage :=
  Function.update_self ..

theorem become_of_ne {w v : Fin c.jobs} (h : v ≠ w) (stage : Stage c.total) :
    (m.become w stage).workers v = m.workers v :=
  Function.update_of_ne h ..

/-- A worker stands where it stood, or where the step put it. -/
theorem of_become (P : Stage c.total → Prop) {w v : Fin c.jobs} {stage : Stage c.total}
    (h : P ((m.become w stage).workers v)) : P (m.workers v) ∨ v = w ∧ P stage := by
  by_cases hvw : v = w
  · subst hvw
    rw [become_self] at h
    exact .inr ⟨rfl, h⟩
  · rw [become_of_ne hvw] at h
    exact .inl h

theorem sum_become (w : Fin c.jobs) (stage : Stage c.total) (f : Stage c.total → ℕ) :
    ∑ v, f ((m.become w stage).workers v) + f (m.workers w) = ∑ v, f (m.workers v) + f stage :=
  Workers.sum_update m.workers w stage fun _ => f

theorem kept_new (c : Setup) : (Matrix.new c).Kept where
  claimed := by simp [Matrix.new, Stage.holds]
  ledger := by simp [Matrix.new, Stage.settled]
  ceiling := by
    intro limit _ most _
    have h : ∑ w, ((Matrix.new c).workers w).underway = 0 := by simp [Matrix.new, Stage.underway]
    rw [h]
    exact .start
  finished := nofun
  halting := nofun
  halted := nofun
  explained := by
    intro cell hcell
    rcases hcell with ⟨i, hi⟩ | ⟨w, hw⟩
    · cases hi
    · cases hw

theorem sum_become_of_eq {w : Fin c.jobs} {stage : Stage c.total} {f : Stage c.total → ℕ}
    (hf : f (m.workers w) = f stage) :
    ∑ v, f ((m.become w stage).workers v) = ∑ v, f (m.workers v) := by
  have h := sum_become (m := m) w stage f
  omega

/-- A cell is taken once, and stays with its worker until it is put down. -/
theorem claimed_step (h : Moved m t m') (hm : m.Kept) (i : Fin c.total) :
    (if (m'.slots i).isSome then 1 else 0) + ∑ w, (m'.workers w).holds i =
      if i.val < m'.next then 1 else 0 := by
  have hi := hm.claimed i
  cases h with
  | @took w j hw hj =>
    have hsum := sum_become (m := { m with next := m.next + 1 }) w (.looking j) (Stage.holds i)
    have hold : (m.workers w).holds i = 0 := by rw [hw]; rfl
    have hnew : (Stage.looking j).holds i = if j = i then 1 else 0 := rfl
    dsimp only at hsum
    rw [hold, hnew] at hsum
    have hstep : (if i.val < m.next + 1 then 1 else 0) =
        (if i.val < m.next then 1 else 0) + if j = i then 1 else 0 := by
      by_cases hij : j = i
      · subst hij
        simp [hj]
      · have hne : i.val ≠ m.next := fun h => hij (Fin.ext (hj.trans h.symm))
        rw [if_neg hij, add_zero]
        exact if_congr (by omega) rfl rfl
    rw [← hi] at hstep
    change (if (m.slots i).isSome = true then 1 else 0) + _ = if i.val < m.next + 1 then 1 else 0
    omega
  | @left w hw hnext =>
    have hstep : (if i.val < m.next + 1 then 1 else 0) = if i.val < m.next then 1 else 0 :=
      if_congr (by have := i.isLt; omega) rfl rfl
    change _ = if i.val < m.next + 1 then 1 else 0
    rw [hstep, sum_become_of_eq (by rw [hw]; rfl)]
    exact hi
  | shifted hw h => rwa [sum_become_of_eq (by rw [hw]; exact h.holds i)]
  | halted hw => rwa [sum_become_of_eq (by rw [hw]; rfl)]
  | paid answers hw => rwa [sum_become_of_eq (by rw [hw]; rfl)]
  | charged hw => rwa [sum_become_of_eq (by rw [hw]; rfl)]
  | recorded hw => rwa [sum_become_of_eq (by rw [Matrix.record_workers, hw]; rfl)]
  | @stored w j cell hw =>
    have hsum := sum_become (m := { m with slots := Function.update m.slots j (some cell) }) w .idle
      (Stage.holds i)
    have hold : (m.workers w).holds i = if j = i then 1 else 0 := by rw [hw]; rfl
    have hnew : (Stage.idle : Stage c.total).holds i = 0 := rfl
    dsimp only at hsum
    rw [hold, hnew] at hsum
    change (if (Function.update m.slots j (some cell) i).isSome = true then 1 else 0) + _ =
      if i.val < m.next then 1 else 0
    by_cases hij : j = i
    · -- the slot was empty, since the worker had the cell
      subst hij
      rw [Function.update_self]
      rw [if_pos rfl] at hsum hold
      have hle : (if j.val < m.next then 1 else 0) ≤ 1 := by split_ifs <;> omega
      have hone := Workers.le_sum m.workers w (Stage.holds j)
      rw [hold] at hone
      simp only [Option.isSome_some, if_true]
      omega
    · rw [Function.update_of_ne (Ne.symm hij)]
      rw [if_neg hij] at hsum
      omega
  | cancelled => exact hi

/-- A worker's cell has not been put down. -/
theorem slot_empty (hm : m.Kept) {w : Fin c.jobs} {i : Fin c.total}
    (hw : (m.workers w).holds i = 1) : m.slots i = none := by
  have hi := hm.claimed i
  have hone := Workers.le_sum m.workers w (Stage.holds i)
  rw [hw] at hone
  have hle : (if i.val < m.next then 1 else 0) ≤ 1 := by split_ifs <;> omega
  by_contra hslot
  rw [if_pos (Option.isSome_iff_ne_none.2 hslot)] at hi
  omega

/-! A computed cell stays computed. -/

theorem has_become {w : Fin c.jobs} {stage : Stage c.total} {cell : Cell}
    (hstage : (m.workers w).cell? = none ∨ (m.workers w).cell? = stage.cell?) (h : m.Has cell) :
    (m.become w stage).Has cell := by
  rcases h with h | ⟨v, hv⟩
  · exact .inl h
  · refine .inr ⟨v, ?_⟩
    by_cases hvw : v = w
    · subst hvw
      rw [hv] at hstage
      rcases hstage with hnone | hsame
      · cases hnone
      · rw [become_self, hsame]
    · rw [become_of_ne hvw, hv]

theorem has_of_become {w : Fin c.jobs} {stage : Stage c.total} {cell : Cell}
    (h : (m.become w stage).Has cell) : m.Has cell ∨ stage.cell? = some cell := by
  rcases h with h | ⟨v, hv⟩
  · exact .inl (.inl h)
  · exact (of_become (·.cell? = some cell) hv).imp (fun hold => .inr ⟨v, hold⟩) And.right

theorem has_step (h : Moved m t m') (hm : m.Kept) {cell : Cell} (hcell : m.Has cell) :
    m'.Has cell := by
  cases h with
  | took hw => exact has_become (.inl (by rw [hw]; rfl)) hcell
  | left hw => exact has_become (.inl (by rw [hw]; rfl)) hcell
  | halted hw => exact has_become (.inl (by rw [hw]; rfl)) hcell
  | shifted hw h => exact has_become (.inl (by rw [hw]; exact h.cell?)) hcell
  | paid answers hw => exact has_become (.inl (by rw [hw]; rfl)) hcell
  | charged hw => exact has_become (.inr (by rw [hw]; rfl)) hcell
  | recorded hw => exact has_become (.inr (by rw [Matrix.record_workers, hw]; rfl)) hcell
  | @stored w i put hw =>
    rcases hcell with ⟨k, hk⟩ | ⟨v, hv⟩
    · have hki : k ≠ i := by
        rintro rfl
        rw [slot_empty hm (w := w) (by rw [hw]; exact if_pos rfl)] at hk
        cases hk
      exact .inl ⟨k, (Function.update_of_ne hki ..).trans hk⟩
    · by_cases hvw : v = w
      · subst hvw
        rw [hw] at hv
        exact .inl ⟨i, (Function.update_self ..).trans hv⟩
      · refine .inr ⟨v, ?_⟩
        rw [become_of_ne hvw, hv]
  | cancelled => exact hcell

/-- Where a computed cell comes from. -/
theorem has_of_step (h : Moved m t m') (hm : m.Kept) {cell : Cell} (hcell : m'.Has cell) :
    m.Has cell ∨ (cell = .stopped ∧ m'.Halted) ∨ cell = .pruned ∨ cell.unrun = false := by
  cases h with
  | took => exact .inl ((has_of_become hcell).resolve_right nofun)
  | left => exact .inl ((has_of_become hcell).resolve_right nofun)
  | @halted w i hw =>
    rcases has_of_become hcell with hold | hnew
    · exact .inl hold
    · cases hnew
      refine .inr (.inl ⟨rfl, (hm.halting w i hw).imp_left ?_⟩)
      intro hreached
      exact Bool.or_eq_true_iff.2 (.inr (m.exhausted_iff_reached.2 hreached))
  | shifted _ h =>
    rcases has_of_become hcell with hold | hnew
    · exact .inl hold
    · cases h with
      | pruned =>
        cases hnew
        exact .inr (.inr (.inl rfl))
      | _ => cases hnew
  | paid answers =>
    rcases has_of_become hcell with hold | hnew
    · exact .inl hold
    · cases hnew
      refine .inr (.inr (.inr ?_))
      unfold Cell.unrun
      rw [Cell.sample_filtered, Cell.sample_skipped]
      rfl
  | @charged w i put failed hw =>
    rcases has_of_become hcell with hold | hnew
    · exact .inl hold
    · exact .inl (.inr ⟨w, by rw [hw]; exact hnew⟩)
  | @recorded w i put failed hw =>
    rcases has_of_become hcell with hold | hnew
    · exact .inl hold
    · exact .inl (.inr ⟨w, by rw [hw]; exact hnew⟩)
  | @stored w i put hw =>
    rcases (has_of_become hcell).resolve_right nofun with ⟨k, hk⟩ | hheld
    · dsimp only at hk
      by_cases hki : k = i
      · subst hki
        rw [Function.update_self] at hk
        exact .inl (.inr ⟨w, by rw [hw]; exact hk⟩)
      · rw [Function.update_of_ne hki] at hk
        exact .inl (.inl ⟨k, hk⟩)
    · exact .inl (.inr hheld)
  | cancelled => exact .inl hcell

/-- The ledger only grows. -/
theorem spent_step (h : Moved m t m') : m.spent ≤ m'.spent := by
  cases h with
  | charged => exact Nat.le_add_right ..
  | _ => exact le_rfl

theorem reached_step (h : Moved m t m') (hm : m.Reached) : m'.Reached := by
  obtain ⟨limit, hlimit, hle⟩ := hm
  exact ⟨limit, hlimit, hle.trans (spent_step h)⟩

theorem stopped_step (h : Moved m t m') (hm : m.Stopped) : m'.Stopped := by
  refine hm.imp (reached_step h) ?_
  intro hc
  cases h with
  | cancelled => rfl
  | _ => exact hc

theorem halted_mono (h : Moved m t m') (hm : m.Halted) : m'.Halted := by
  cases h with
  | halted => exact hm.imp_left fun hold => Bool.or_eq_true_iff.2 (.inl hold)
  | cancelled => exact .inr rfl
  | _ => exact hm

theorem explained_step (h : Moved m t m') (hm : m.Kept) (cell : Cell) (hcell : m'.Has cell) :
    m'.Explained cell := by
  intro hskip
  rcases has_of_step h hm hcell with hold | ⟨rfl, hstop⟩ | hpruned | hrun
  · exact (hm.explained cell hold hskip).imp_left (And.imp_right (halted_mono h))
  · exact .inl ⟨rfl, hstop⟩
  · exact .inr hpruned
  · rw [hrun] at hskip
    cases hskip

theorem ledger_step (h : Moved m t m') (hm : m.Kept) :
    m'.spent = ∑ i, ((m'.slots i).map Cell.charge).getD 0 + ∑ w, (m'.workers w).settled := by
  have hledger := hm.ledger
  cases h with
  | took hw => rwa [sum_become_of_eq (by rw [hw]; rfl)]
  | left hw => rwa [sum_become_of_eq (by rw [hw]; rfl)]
  | shifted hw h => rwa [sum_become_of_eq (by rw [hw]; exact h.settled)]
  | halted hw => rwa [sum_become_of_eq (by rw [hw]; exact Cell.charge_stopped.symm)]
  | paid answers hw => rwa [sum_become_of_eq (by rw [hw]; rfl)]
  | @charged w i cell failed hw =>
    have hsum := sum_become (m := { m with spent := m.spent + cell.charge }) w
      (.recording i cell failed) Stage.settled
    have hold : (m.workers w).settled = 0 := by rw [hw]; rfl
    have hnew : (Stage.recording i cell failed).settled = cell.charge := rfl
    dsimp only at hsum
    rw [hold, hnew] at hsum
    change m.spent + cell.charge = ∑ i, ((m.slots i).map Cell.charge).getD 0 + _
    omega
  | recorded hw => rwa [sum_become_of_eq (by rw [Matrix.record_workers, hw]; rfl)]
  | @stored w i cell hw =>
    -- what the worker had is now in its slot
    have hslots := Workers.sum_update m.slots i (some cell) fun _ o => (o.map Cell.charge).getD 0
    have hsum := sum_become (m := { m with slots := Function.update m.slots i (some cell) }) w .idle
      Stage.settled
    have hempty : ((m.slots i).map Cell.charge).getD 0 = 0 := by
      rw [slot_empty hm (w := w) (by rw [hw]; exact if_pos rfl)]
      rfl
    have hold : (m.workers w).settled = cell.charge := by rw [hw]; rfl
    have hnew : (Stage.idle : Stage c.total).settled = 0 := rfl
    have hput : ((some cell).map Cell.charge).getD 0 = cell.charge := rfl
    dsimp only at hsum hslots
    rw [hold, hnew] at hsum
    rw [hempty, hput] at hslots
    change m.spent = ∑ k, ((Function.update m.slots i (some cell) k).map Cell.charge).getD 0 + _
    omega
  | cancelled => exact hledger

/-- The worker that moves was under way, and is not any more. -/
theorem underway_become_of_leave {w : Fin c.jobs} (stage : Stage c.total)
    (hold : (m.workers w).underway = 1) (hnew : stage.underway = 0) :
    ∑ v, (m.workers v).underway = ∑ v, ((m.become w stage).workers v).underway + 1 := by
  have hsum := sum_become (m := m) w stage Stage.underway
  omega

theorem ceiling_step (h : Moved m t m') (hm : m.Kept) (limit : ℕ) (hlimit : limit ∈ c.limit)
    (most : ℕ) (hmost : m'.Within most) :
    Workers.Under c.jobs limit most m'.spent (∑ w, (m'.workers w).underway) := by
  have hunder := hm.ceiling limit hlimit most fun cell hcell => hmost cell (has_step h hm hcell)
  cases h with
  | took hw => rwa [sum_become_of_eq (by rw [hw]; rfl)]
  | left hw => rwa [sum_become_of_eq (by rw [hw]; rfl)]
  | @shifted w _ _ hw h =>
    cases h with
    | @looked i hspent =>
      have hbelow : m.spent < limit := by
        by_contra hreached
        rw [m.exhausted_iff_reached.2 ⟨limit, hlimit, not_lt.1 hreached⟩] at hspent
        cases hspent
      have hcard := Workers.sum_le_card (m.become w (.asking i)).workers Stage.underway_le_one
      have hsum := sum_become (m := m) w (.asking i) Stage.underway
      have hold : (m.workers w).underway = 0 := by rw [hw]; rfl
      have hnew : (Stage.asking i).underway = 1 := rfl
      rw [Fintype.card_fin] at hcard
      rw [hold, hnew, Nat.add_zero] at hsum
      rw [hsum] at hcard ⊢
      exact .enter hbelow hcard
    | @stopped i =>
      rw [underway_become_of_leave (.halting i) (by rw [hw]; rfl) rfl] at hunder
      exact hunder.leave (Nat.zero_le most)
    | @pruned i k =>
      rw [underway_become_of_leave (.storing i .pruned) (by rw [hw]; rfl) rfl] at hunder
      exact hunder.leave (Nat.zero_le most)
    | _ => rwa [sum_become_of_eq (by rw [hw]; rfl)]
  | halted hw => rwa [sum_become_of_eq (by rw [hw]; rfl)]
  | paid answers hw => rwa [sum_become_of_eq (by rw [hw]; rfl)]
  | @charged w i cell failed hw =>
    rw [underway_become_of_leave (.recording i cell failed) (by rw [hw]; rfl) rfl] at hunder
    exact hunder.leave (hmost cell (.inr ⟨w, by rw [become_self]; rfl⟩))
  | recorded hw => rwa [sum_become_of_eq (by rw [Matrix.record_workers, hw]; rfl)]
  | stored hw => rwa [sum_become_of_eq (by rw [hw]; rfl)]
  | cancelled => exact hunder

/-- Where a worker stands after a step: where it stood, or where the step put it. -/
theorem halting_step (h : Moved m t m') (hm : m.Kept) (w : Fin c.jobs) (i : Fin c.total)
    (hw' : m'.workers w = .halting i) : m'.Stopped := by
  refine stopped_step h ?_
  have hkept := hm.halting w i
  cases h with
  | cancelled => exact hkept hw'
  | shifted _ h =>
    rcases of_become (· = .halting i) hw' with hold | ⟨-, rfl⟩
    · exact hkept hold
    · cases h with
      | broke hspent => exact .inl (m.exhausted_iff_reached.1 hspent)
      | stopped hstop => exact .inr hstop
  | _ => exact hkept ((of_become (· = .halting i) hw').resolve_right nofun)

theorem finished_step (h : Moved m t m') (hm : m.Kept) (w : Fin c.jobs)
    (hw' : m'.workers w = .done) : c.total ≤ m'.next := by
  have hkept := hm.finished w
  cases h with
  | cancelled => exact hkept hw'
  | left _ hnext => exact hnext.trans (Nat.le_succ m.next)
  | took => exact Nat.le_succ_of_le (hkept ((of_become (· = .done) hw').resolve_right nofun))
  | shifted _ h =>
    rcases of_become (· = .done) hw' with hold | ⟨-, rfl⟩
    · exact hkept hold
    · cases h
  | _ => exact hkept ((of_become (· = .done) hw').resolve_right nofun)

theorem halted_step (h : Moved m t m') (hm : m.Kept) (hhalted : m'.halted = true) :
    m'.Reached ∧ m'.Has .stopped := by
  have hmoved := h
  cases h with
  | @halted w i hw =>
    refine ⟨?_, .inr ⟨w, by rw [become_self]; rfl⟩⟩
    rcases Bool.or_eq_true_iff.1 hhalted with hold | hspent
    · exact (hm.halted hold).1
    · exact m.exhausted_iff_reached.1 hspent
  | _ =>
    obtain ⟨hreached, hcell⟩ := hm.halted hhalted
    exact ⟨reached_step hmoved hreached, has_step hmoved hm hcell⟩

theorem kept_step (h : Moved m t m') (hm : m.Kept) : m'.Kept where
  claimed := claimed_step h hm
  finished := finished_step h hm
  ledger := ledger_step h hm
  ceiling := ceiling_step h hm
  halting := halting_step h hm
  halted := halted_step h hm
  explained := explained_step h hm

theorem kept_of_run {ts : List (Turn c)} (hrun : Sys.Run (MatrixStep c) (.new c) ts m) : m.Kept :=
  hrun.invariant (kept_new c) fun _ _ _ hstep => kept_step (moved_of_step hstep)

/-! ## The ledger and the ceiling -/

/-- What a run has to answer for. -/
structure Matrix.Accounted (m : Matrix c) : Prop where
  /-- a cell is not computed again -/
  once : ∀ i w, (m.workers w).holds i = 1 →
    m.slots i = none ∧ ∀ v, (m.workers v).holds i = 1 → v = w
  /-- the ceiling is passed by no more than the cells under way -/
  ceiling : ∀ limit ∈ c.limit, ∀ most, m.Within most → m.spent < max limit 1 + c.jobs * most
  explained : ∀ i, ∀ cell ∈ m.slots i, m.Explained cell
  /-- every cell is there in the end, and the ledger is what they cost -/
  complete : (∀ w, m.workers w = .done) →
    (∀ i, (m.slots i).isSome = true) ∧ m.spent = ∑ i, ((m.slots i).map Cell.charge).getD 0

/-- One worker at most has a cell. -/
theorem holder_unique (hm : m.Kept) {i : Fin c.total} {v w : Fin c.jobs}
    (hw : (m.workers w).holds i = 1) (hv : (m.workers v).holds i = 1) : v = w := by
  by_contra hvw
  have hi := hm.claimed i
  have htwo : (m.workers v).holds i + (m.workers w).holds i ≤ ∑ u, (m.workers u).holds i :=
    Workers.add_le_sum m.workers hvw (Stage.holds i)
  have hle : (if i.val < m.next then 1 else 0) ≤ 1 := by split_ifs <;> omega
  omega

theorem slots_complete (hm : m.Kept) (hdone : ∀ w, m.workers w = .done) (i : Fin c.total) :
    (m.slots i).isSome = true := by
  have hi := hm.claimed i
  have hnone : ∑ w, (m.workers w).holds i = 0 :=
    Finset.sum_eq_zero fun w _ => by rw [hdone w]; rfl
  have hnext := i.isLt.trans_le (hm.finished ⟨0, c.jobs_pos⟩ (hdone _))
  rw [hnone, if_pos hnext] at hi
  by_contra hslot
  rw [if_neg hslot] at hi
  omega

/-- Two targets with one case each, and two workers. -/
def sampleSetup : Setup where
  targets := 2
  cases := 1
  asked := 2
  ng := 1
  limit := limitMicros (1 / 200000)
  threshold := OPEN_AFTER_FAILURES

/-- The first cell costs more than the run may, and the second one is stopped. -/
def sampleTurns : List (Turn sampleSetup) :=
  let fst : Fin sampleSetup.jobs := ⟨0, sampleSetup.jobs_pos⟩
  let snd : Fin sampleSetup.jobs := ⟨1, by decide⟩
  [.go fst, .go fst, .go fst, .go fst,
    .pay fst [⟨.ok { cost := 1 / 100000 }, .ok { cost := 0, score := 1 }⟩], .go fst, .go snd,
    .go snd, .go snd, .go fst, .go fst, .go snd, .go fst, .go snd]

theorem sampleTurns_run : ∃ m, (m.halted = true ∧ ∀ w, m.workers w = .done) ∧
    Sys.Run (MatrixStep sampleSetup) (.new sampleSetup) sampleTurns m := by
  have h : (sampleTurns.foldlM Matrix.step (.new sampleSetup)).any
      (fun m => decide (m.halted = true ∧ ∀ w, m.workers w = .done)) = true := by decide +kernel
  obtain ⟨m, hm, hdone⟩ := (Option.any_eq_true ..).1 h
  exact ⟨m, of_decide_eq_true hdone, .of_foldlM sampleTurns hm⟩

namespace Setup

variable (c : Setup) (ti : ℕ)

/-- A cell of this target that was tried because the breaker was closed. -/
def attempt (i : Fin c.total) (cell : Cell) : ℕ :=
  if c.targetOf i = ti ∧ cell.ordinary = true then 1 else 0

/-- An attempt tihat the breaker does not know of yet. -/
def trying : Stage c.total → ℕ
  | .paying i override => if c.targetOf i = ti ∧ override = false then 1 else 0
  | .charging i cell _ | .recording i cell _ => c.attempt ti i cell
  | _ => 0

/-- An attempt tihat the breaker knows of, and that is not put down yet. -/
def tried : Stage c.total → ℕ
  | .storing i cell => c.attempt ti i cell
  | _ => 0

/-- An attempt tihat has been put down. -/
def attempted (m : Matrix c) (i : Fin c.total) : ℕ := ((m.slots i).map (c.attempt ti i)).getD 0

theorem trying_le_one (s : Stage c.total) : c.trying ti s ≤ 1 := by
  cases s with
  | paying | charging | recording =>
    dsimp only [trying, attempt]
    split_ifs
    · exact le_rfl
    · exact Nat.zero_le 1
  | _ => exact Nat.zero_le 1

end Setup

/-- Whether the generation of a worker's cell failed, where it is known. -/
def Stage.verdict? {n : ℕ} : Stage n → Option (Fin n × Bool)
  | charging i _ failed | recording i _ failed => some (i, failed)
  | _ => none

/-- How many attempts the breaker knows of. -/
def Matrix.known (ti : ℕ) (m : Matrix c) : ℕ :=
  ∑ i, c.attempted ti m i + ∑ w, c.tried ti (m.workers w)

/-- How many it does not know of. -/
def Matrix.unknown (ti : ℕ) (m : Matrix c) : ℕ := ∑ w, c.trying ti (m.workers w)

/-- How often a target has been tried because its breaker was closed. -/
def Matrix.attempts (ti : ℕ) (m : Matrix c) : ℕ := m.known ti + m.unknown ti

/-- The calls of this target all fail. -/
def Dead (ti : ℕ) (m : Matrix c) : Turn c → Prop
  | .pay w answers => ∀ i override, m.workers w = .paying i override → c.targetOf i = ti →
      (Cell.sample { breakerOverride := override } answers).2 = true
  | _ => True

/-- What holds of a target that does not answer. -/
structure Matrix.Failing (ti : ℕ) (m : Matrix c) : Prop where
  /-- every attempt the breaker knows of is one of the failures it counts -/
  counted : m.known ti ≤ m.consecutive ti
  breaker : Workers.Under c.jobs (max c.threshold 1) 1 (m.known ti) (m.unknown ti)
  failed : ∀ w i failed, (m.workers w).verdict? = some (i, failed) → c.targetOf i = ti →
    failed = true

section

variable {ti : ℕ}

theorem known_become {w : Fin c.jobs} {stage : Stage c.total}
    (h : c.tried ti (m.workers w) = c.tried ti stage) : (m.become w stage).known ti = m.known ti :=
  congrArg (∑ i, c.attempted ti m i + ·) (sum_become_of_eq h)

theorem unknown_become {w : Fin c.jobs} {stage : Stage c.total}
    (h : c.trying ti (m.workers w) = c.trying ti stage) :
    (m.become w stage).unknown ti = m.unknown ti :=
  sum_become_of_eq h

/-- What a step does to the attempts on a target. -/
inductive Tallied (ti : ℕ) (m m' : Matrix c) : Prop
  | same : m'.known ti = m.known ti → m'.unknown ti = m.unknown ti →
      m'.consecutive ti = m.consecutive ti → Tallied ti m m'
  | began : m.consecutive ti < max c.threshold 1 → m'.known ti = m.known ti →
      m'.unknown ti = m.unknown ti + 1 → m'.consecutive ti = m.consecutive ti → Tallied ti m m'
  | failed {k : ℕ} : k ≤ 1 → m'.known ti = m.known ti + k → m.unknown ti = m'.unknown ti + k →
      m'.consecutive ti = m.consecutive ti + 1 → Tallied ti m m'

theorem attempt_of_ne {i : Fin c.total} {cell : Cell} (h : c.targetOf i ≠ ti) :
    c.attempt ti i cell = 0 :=
  if_neg fun hand => h hand.1

theorem attempt_sample (i : Fin c.total) (override : Bool) (answers : List Candidate) :
    c.attempt ti i (Cell.sample { breakerOverride := override } answers).1 =
      if c.targetOf i = ti ∧ override = false then 1 else 0 := by
  unfold Setup.attempt Cell.ordinary
  rw [Cell.sample_skipped, Cell.sample_override]
  simp

theorem tallied_of_moved (h : Moved m t m') (hm : m.Kept) (hf : m.Failing ti) :
    Tallied ti m m' := by
  cases h with
  | took hw => exact .same (known_become (by rw [hw]; rfl)) (unknown_become (by rw [hw]; rfl)) rfl
  | left hw => exact .same (known_become (by rw [hw]; rfl)) (unknown_become (by rw [hw]; rfl)) rfl
  | @shifted w _ _ hw h =>
    cases h with
    | @admitted i hopen =>
      by_cases hi : c.targetOf i = ti
      · refine .began ?_ (known_become (by rw [hw]; rfl)) ?_ rfl
        · rw [← hi]
          exact not_le.1 (of_decide_eq_false hopen)
        · have hsum := sum_become (m := m) w (.paying i false) (c.trying ti)
          have hold : c.trying ti (m.workers w) = 0 := by rw [hw]; rfl
          have hnew : c.trying ti (.paying i false) = 1 := if_pos ⟨hi, rfl⟩
          rwa [hold, hnew] at hsum
      · exact .same (known_become (by rw [hw]; rfl))
          (unknown_become (by rw [hw]; exact (if_neg fun hand => hi hand.1).symm)) rfl
    | pruned =>
      exact .same (known_become (by rw [hw]; exact (if_neg nofun).symm))
        (unknown_become (by rw [hw]; rfl)) rfl
    | overrode =>
      exact .same (known_become (by rw [hw]; rfl))
        (unknown_become (by rw [hw]; exact (if_neg nofun).symm)) rfl
    | _ => exact .same (known_become (by rw [hw]; rfl)) (unknown_become (by rw [hw]; rfl)) rfl
  | halted hw =>
    exact .same (known_become (by rw [hw]; exact (if_neg nofun).symm))
      (unknown_become (by rw [hw]; rfl)) rfl
  | paid answers hw =>
    exact .same (known_become (by rw [hw]; rfl))
      (unknown_become (by rw [hw]; exact (attempt_sample ..).symm)) rfl
  | charged hw => exact .same (known_become (by rw [hw]; rfl)) (unknown_become (by rw [hw]; rfl)) rfl
  | @recorded w i cell failed hw =>
    by_cases hi : c.targetOf i = ti
    · have hfailed := hf.failed w i failed (by rw [hw]; rfl) hi
      subst hfailed hi
      -- the attempt, if the cell is one, is known from now on
      have hle : c.attempt (c.targetOf i) i cell ≤ 1 :=
        c.trying_le_one (c.targetOf i) (.recording i cell true)
      have hknown := sum_become (m := m) w (.storing i cell) (c.tried (c.targetOf i))
      have hunknown := sum_become (m := m) w (.storing i cell) (c.trying (c.targetOf i))
      rw [hw] at hknown hunknown
      refine .failed hle ?_ hunknown.symm (Function.update_self ..)
      exact (congrArg (∑ i, c.attempted _ m i + ·) hknown).trans (Nat.add_assoc ..).symm
    · refine .same (known_become ?_) (unknown_become ?_) (Function.update_of_ne (Ne.symm hi) ..)
      · rw [Matrix.record_workers, hw]
        exact (attempt_of_ne hi).symm
      · rw [Matrix.record_workers, hw]
        exact attempt_of_ne hi
  | @stored w i cell hw =>
    refine .same ?_ (unknown_become (by rw [hw]; rfl)) rfl
    have hput : ∑ k, ((Function.update m.slots i (some cell) k).map (c.attempt ti k)).getD 0 =
        ∑ k, c.attempted ti m k + c.attempt ti i cell := by
      have hsum := Workers.sum_update m.slots i (some cell)
        fun k o => (o.map (c.attempt ti k)).getD 0
      rw [slot_empty hm (w := w) (by rw [hw]; exact if_pos rfl)] at hsum
      exact hsum
    have hheld : ∑ v, c.tried ti ((m.become w .idle).workers v) + c.attempt ti i cell =
        ∑ v, c.tried ti (m.workers v) := by
      have hsum := sum_become (m := m) w .idle (c.tried ti)
      rw [hw] at hsum
      exact hsum
    change _ + ∑ v, c.tried ti ((m.become w .idle).workers v) = m.known ti
    unfold Matrix.known
    rw [← hheld]
    refine (congrArg (· + _) hput).trans ?_
    omega
  | cancelled => exact .same rfl rfl rfl

theorem failed_step (h : Moved m t m') (hdead : Dead ti m t) (hf : m.Failing ti) (w : Fin c.jobs)
    (i : Fin c.total) (failed : Bool) (hw' : (m'.workers w).verdict? = some (i, failed))
    (hi : c.targetOf i = ti) : failed = true := by
  have hkept := fun h => hf.failed w i failed h hi
  cases h with
  | cancelled => exact hkept hw'
  | paid answers hv =>
    rcases of_become (·.verdict? = some (i, failed)) hw' with hold | ⟨-, hput⟩
    · exact hkept hold
    · cases hput
      exact hdead i _ hv hi
  | charged hv =>
    rcases of_become (·.verdict? = some (i, failed)) hw' with hold | ⟨rfl, hput⟩
    · exact hkept hold
    · exact hkept (by rw [hv]; exact hput)
  | shifted _ h =>
    rcases of_become (·.verdict? = some (i, failed)) hw' with hold | ⟨-, hput⟩
    · exact hkept hold
    · cases h <;> cases hput
  | _ => exact hkept ((of_become (·.verdict? = some (i, failed)) hw').resolve_right nofun)

theorem failing_new (c : Setup) (ti : ℕ) : (Matrix.new c).Failing ti := by
  have hknown : (Matrix.new c).known ti = 0 := by
    simp [Matrix.known, Matrix.new, Setup.attempted, Setup.tried]
  have hunknown : (Matrix.new c).unknown ti = 0 := by
    simp [Matrix.unknown, Matrix.new, Setup.trying]
  refine ⟨by rw [hknown]; exact Nat.zero_le _, ?_, ?_⟩
  · rw [hknown, hunknown]
    exact .start
  · rintro w i failed ⟨⟩

theorem failing_step (h : Moved m t m') (hdead : Dead ti m t) (hm : m.Kept) (hf : m.Failing ti) :
    m'.Failing ti := by
  have hcounted := hf.counted
  have hbreaker := hf.breaker
  have hcard := Workers.sum_le_card m'.workers (c.trying_le_one ti)
  rw [Fintype.card_fin] at hcard
  refine ⟨?_, ?_, failed_step h hdead hf⟩
  · cases tallied_of_moved h hm hf with
    | same hknown _ hfails => omega
    | began _ hknown _ hfails => omega
    | failed hle hknown _ hfails => omega
  · cases tallied_of_moved h hm hf with
    | same hknown hunknown _ => rwa [hknown, hunknown]
    | began hclosed hknown hunknown _ =>
      rw [hknown, hunknown]
      exact .enter (hcounted.trans_lt hclosed) (hunknown ▸ hcard)
    | @failed k hle hknown hunknown _ =>
      rw [hknown]
      unfold Workers.Under at hbreaker ⊢
      omega

/-- A target whose calls all fail is tried until its breaker opens, and then by no more workers than
there are. -/
theorem dead_target_bounded {ts : List (Turn c)}
    (hrun : Sys.Run (Sys.Restrict (MatrixStep c) (Dead ti)) (.new c) ts m) :
    m.attempts ti < max c.threshold 1 + c.jobs := by
  have hinv : m.Kept ∧ m.Failing ti := by
    refine hrun.invariant (I := fun a => a.Kept ∧ a.Failing ti) ?_ ?_
    · exact ⟨kept_new c, failing_new c ti⟩
    · rintro a t b ⟨hstep, hdead⟩ ⟨hkept, hfailing⟩
      have hmoved := moved_of_step hstep
      exact ⟨kept_step hmoved hkept, failing_step hmoved hdead hkept hfailing⟩
  have hbreaker := hinv.2.breaker
  unfold Workers.Under at hbreaker
  unfold Matrix.attempts
  omega

/-- The first target does not answer. -/
def deadTurns : List (Turn sampleSetup) :=
  let fst : Fin sampleSetup.jobs := ⟨0, sampleSetup.jobs_pos⟩
  [.go fst, .go fst, .go fst, .go fst, .pay fst [⟨.error "down", .error ""⟩], .go fst, .go fst,
    .go fst]

theorem dead_target_bounded_sample :
    ∃ m, Sys.Run (Sys.Restrict (MatrixStep sampleSetup) (Dead 0)) (.new sampleSetup) deadTurns m ∧
      m.attempts 0 < 3 + 2 := by
  have h : (deadTurns.foldlM Matrix.step (.new sampleSetup)).isSome = true := by decide +kernel
  obtain ⟨m, hm⟩ := Option.isSome_iff_exists.1 h
  have hdead : ∀ turn ∈ deadTurns, ∀ a, Dead 0 a turn := by simp [deadTurns, Dead, Cell.sample]
  have hrun := Sys.Run.restrict (.of_foldlM deadTurns hm) hdead
  exact ⟨m, hrun, dead_target_bounded hrun⟩

end

end LightTrack.Runner
