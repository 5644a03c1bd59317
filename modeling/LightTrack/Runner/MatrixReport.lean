import LightTrack.Runner.Matrix
import LightTrack.Runner.Paired

/-! # The report of a comparison

The cells are folded into one row for each target, and the statuses of the targets into one for the
whole comparison.

* `report_honest` : what the report says of a run, above all of one that stopped early: every planned
  case is accounted for, the money is said to have run out where it did, what was cut short has not
  passed, and the rows agree with the ledger up to the rounding of each cell.
-/

namespace LightTrack.Runner

open Stats

variable {c : Setup} {m : Matrix c}

/-! ## The rows -/

/-- What a comparison says of one target. -/
structure TargetRow where
  judged : ℕ := 0
  errored : ℕ := 0
  skipped : ℕ := 0
  filtered : ℕ := 0
  overrides : ℕ := 0
  genCost : ℚ := 0
  judgeCost : ℚ := 0

namespace TargetRow

/-- One cell is folded in. -/
def add (row : TargetRow) (cell : Cell) : TargetRow :=
  let row := { row with overrides := row.overrides + if cell.breakerOverride then 1 else 0 }
  if cell.filtered then { row with filtered := row.filtered + 1, skipped := row.skipped + 1 }
  else if cell.skipped then { row with skipped := row.skipped + 1 }
  else
    let row := { row with
      genCost := row.genCost + cell.genCost
      judgeCost := row.judgeCost + cell.judgeCost }
    if cell.candScores.isEmpty then { row with errored := row.errored + 1 }
    else { row with judged := row.judged + 1 }

/-- The row of a target, from its cells. -/
def of (cells : List Cell) : TargetRow := cells.foldl add {}

/-- `budget_halted` of a target's report -/
def budgetHalted (row : TargetRow) (cancelled : Bool) : Bool :=
  decide (row.filtered < row.skipped) && !cancelled

end TargetRow

/-- The status of one target, and of the whole comparison. -/
inductive MatrixStatus where
  | cancelled
  | partialRun
  | verdict (status : RunStatus)
  deriving DecidableEq

/-- `halt_status` -/
def haltStatus (cancelled : Bool) (skipped : ℕ) (verdictStatus : RunStatus) : MatrixStatus :=
  match cancelled, skipped with
  | true, _ => .cancelled
  | false, 0 => .verdict verdictStatus
  | false, _ + 1 => .partialRun

/-- `aggregate_status` -/
def aggregateStatus (statuses : List MatrixStatus) : MatrixStatus :=
  if .verdict .regressed ∈ statuses then .verdict .regressed
  else if .cancelled ∈ statuses then .cancelled
  else if .partialRun ∈ statuses then .partialRun
  else if .verdict .passed ∈ statuses then .verdict .passed
  else .verdict .noBaseline

/-- The cells of each target, taken in order. -/
def byTarget (cases : ℕ) : ℕ → List Cell → List (List Cell)
  | 0, _ => []
  | targets + 1, cells => cells.take cases :: byTarget cases targets (cells.drop cases)

/-- What a comparison ends with. -/
structure MatrixReport where
  rows : List TargetRow
  status : MatrixStatus
  budgetHalted : Bool
  cancelled : Bool
  spent : ℕ

namespace Matrix

/-- The end of `parallel_map`: it expects every slot to be filled. -/
def collected (m : Matrix c) : Option (List Cell) :=
  if ∀ i, (m.slots i).isSome = true then some ((List.finRange c.total).filterMap m.slots) else none

/-- The report of a run whose workers are done, given what the scores of each target say. -/
def report (m : Matrix c) (verdict : ℕ → RunStatus) : Option MatrixReport :=
  m.collected.map fun cells =>
    let rows := (byTarget c.cases c.targets cells).map TargetRow.of
    { rows
      status := aggregateStatus
        (rows.zipIdx.map fun row => haltStatus m.cancelled row.1.skipped (verdict row.2))
      budgetHalted := m.halted
      cancelled := m.cancelled
      spent := m.spent }

end Matrix

/-- A cell that the breakers did not keep from running, and that was not run. -/
def Cell.cut (cell : Cell) : Bool := cell.skipped && !cell.filtered

/-- What the report counts for a cell. -/
def Cell.cost (cell : Cell) : ℚ := if cell.unrun then 0 else cell.genCost + cell.judgeCost

namespace TargetRow

variable (row : TargetRow) (cell : Cell) (cells : List Cell)

theorem add_ran :
    (row.add cell).judged + (row.add cell).errored + (row.add cell).skipped =
      row.judged + row.errored + row.skipped + 1 := by
  unfold add
  cases cell.filtered <;> cases cell.skipped <;> cases cell.candScores <;> dsimp <;> omega

theorem add_filtered :
    (row.add cell).skipped + row.filtered = (row.add cell).filtered + row.skipped +
      if cell.cut = true then 1 else 0 := by
  unfold add Cell.cut
  cases cell.filtered <;> cases cell.skipped <;> cases cell.candScores <;> dsimp <;> omega

theorem add_cost :
    (row.add cell).genCost + (row.add cell).judgeCost = row.genCost + row.judgeCost + cell.cost := by
  unfold add Cell.cost Cell.unrun
  cases cell.filtered <;> cases cell.skipped <;> cases cell.candScores <;> simp <;> ring

theorem foldl_ran :
    (cells.foldl add row).judged + (cells.foldl add row).errored + (cells.foldl add row).skipped =
      row.judged + row.errored + row.skipped + cells.length := by
  induction cells generalizing row with
  | nil => rfl
  | cons cell cells ih =>
    rw [List.foldl_cons, ih, add_ran, List.length_cons]
    omega

theorem foldl_filtered :
    (cells.foldl add row).skipped + row.filtered = (cells.foldl add row).filtered + row.skipped +
      cells.countP Cell.cut := by
  induction cells generalizing row with
  | nil => exact Nat.add_comm ..
  | cons cell cells ih =>
    have hrest := ih (row.add cell)
    have hone := add_filtered row cell
    rw [List.foldl_cons, List.countP_cons]
    omega

theorem foldl_cost :
    (cells.foldl add row).genCost + (cells.foldl add row).judgeCost =
      row.genCost + row.judgeCost + (cells.map Cell.cost).sum := by
  induction cells generalizing row with
  | nil => exact (add_zero _).symm
  | cons cell cells ih => rw [List.foldl_cons, ih, add_cost, List.map_cons, List.sum_cons, add_assoc]

theorem of_ran : (of cells).judged + (of cells).errored + (of cells).skipped = cells.length := by
  unfold of
  rw [foldl_ran]
  exact Nat.zero_add _

theorem of_filtered : (of cells).skipped = (of cells).filtered + cells.countP Cell.cut :=
  foldl_filtered {} cells

end TargetRow

/-! The cells of a run, target by target. -/

theorem byTarget_length (cases n : ℕ) (cells : List Cell) : (byTarget cases n cells).length = n := by
  induction n generalizing cells with
  | zero => rfl
  | succ n ih => exact congrArg (· + 1) (ih (cells.drop cases))

theorem byTarget_flatten {cases n : ℕ} {cells : List Cell} (h : cells.length = n * cases) :
    (byTarget cases n cells).flatten = cells := by
  induction n generalizing cells with
  | zero =>
    rw [Nat.zero_mul] at h
    exact (List.eq_nil_of_length_eq_zero h).symm
  | succ n ih =>
    have hrest : (cells.drop cases).length = n * cases := by
      rw [List.length_drop, h, Nat.succ_mul]
      omega
    unfold byTarget
    rw [List.flatten_cons, ih hrest, List.take_append_drop]

theorem length_of_mem_byTarget {cases n : ℕ} {cells : List Cell} (h : cells.length = n * cases) :
    ∀ cs ∈ byTarget cases n cells, cs.length = cases := by
  induction n generalizing cells with
  | zero => nofun
  | succ n ih =>
    have hrest : (cells.drop cases).length = n * cases := by
      rw [List.length_drop, h, Nat.succ_mul]
      omega
    intro cs hcs
    rcases List.mem_cons.1 hcs with rfl | hcs
    · rw [List.length_take, h, Nat.succ_mul]
      omega
    · exact ih hrest cs hcs

theorem TargetRow.sum_cost (css : List (List Cell)) :
    ((css.map TargetRow.of).map fun row => row.genCost + row.judgeCost).sum =
      (css.flatten.map Cell.cost).sum := by
  induction css with
  | nil => rfl
  | cons cs css ih =>
    rw [List.map_cons, List.map_cons, List.sum_cons, ih, List.flatten_cons, List.map_append,
      List.sum_append]
    unfold TargetRow.of
    rw [TargetRow.foldl_cost]
    simp

/-- The cells that are there when every slot is filled. -/
theorem collected_eq {m : Matrix c} (h : ∀ i, (m.slots i).isSome = true) :
    ∃ f : Fin c.total → Cell, (∀ i, m.slots i = some (f i)) ∧
      m.collected = some ((List.finRange c.total).map f) := by
  refine ⟨fun i => (m.slots i).get (h i), fun i => (Option.some_get (h i)).symm, ?_⟩
  unfold Matrix.collected
  rw [if_pos h]
  refine congrArg some ?_
  rw [← List.filterMap_eq_map]
  exact List.filterMap_congr fun i _ => (Option.some_get (h i)).symm

/-! What the ledger has rounded. -/

theorem Cell.abs_micros_sub_le {usd : ℚ} (h : 0 ≤ usd) :
    |(Cell.micros usd : ℚ) - usd * 1000000| ≤ 1 / 2 := by
  unfold Cell.micros
  split_ifs with hpos
  · have hround : 0 ≤ round (usd * 1000000) := by
      rw [round_eq]
      exact Int.floor_nonneg.2 (by positivity)
    have hcast : ((round (usd * 1000000)).toNat : ℚ) = (round (usd * 1000000) : ℤ) := by
      exact_mod_cast Int.toNat_of_nonneg hround
    rw [hcast, abs_sub_comm]
    exact abs_sub_round _
  · have hzero : usd = 0 := le_antisymm (not_lt.1 hpos) h
    rw [hzero]
    norm_num

/-- An explained cell that was not run was not paid for either. -/
theorem abs_charge_sub_cost_le {cell : Cell} (h : m.Explained cell)
    (hcost : 0 ≤ cell.genCost + cell.judgeCost) :
    |(cell.charge : ℚ) - cell.cost * 1000000| ≤ 1 / 2 := by
  cases hrun : cell.unrun with
  | false =>
    have hcharged : cell.cost = cell.genCost + cell.judgeCost := by
      unfold Cell.cost
      rw [hrun]
      exact if_neg Bool.false_ne_true
    rw [hcharged]
    exact Cell.abs_micros_sub_le hcost
  | true =>
    have hzero : cell.charge = 0 := by
      rcases h hrun with ⟨rfl, -⟩ | rfl
      · exact Cell.charge_stopped
      · exact Cell.charge_pruned
    have hfree : cell.cost = 0 := by
      unfold Cell.cost
      rw [hrun]
      exact if_pos rfl
    rw [hzero, hfree]
    norm_num

/-! What the statuses add up to. -/

theorem aggregateStatus_passed {statuses : List MatrixStatus}
    (h : aggregateStatus statuses = .verdict .passed) :
    .cancelled ∉ statuses ∧ .partialRun ∉ statuses ∧ .verdict .passed ∈ statuses := by
  unfold aggregateStatus at h
  split_ifs at h with hregressed hcancelled hcutShort hpassed
  · cases h
  · exact ⟨hcancelled, hcutShort, hpassed⟩
  · cases h

theorem haltStatus_whole {cancelled : Bool} {skipped : ℕ} {verdict : RunStatus}
    (hcancelled : haltStatus cancelled skipped verdict ≠ .cancelled)
    (hcutShort : haltStatus cancelled skipped verdict ≠ .partialRun) :
    cancelled = false ∧ skipped = 0 := by
  cases cancelled with
  | true => exact (hcancelled rfl).elim
  | false =>
    cases skipped with
    | zero => exact ⟨rfl, rfl⟩
    | succ => exact (hcutShort rfl).elim

/-- What the report says of a run is so. -/
structure MatrixReport.Honest (r : MatrixReport) (m : Matrix c) : Prop where
  rows : r.rows.length = c.targets
  /-- every planned case is judged, errored or skipped -/
  planned : ∀ row ∈ r.rows, row.judged + row.errored + row.skipped = c.cases
  filtered : ∀ row ∈ r.rows, row.filtered ≤ row.skipped
  /-- where a target says that the money ran out, so does the whole report -/
  halted : ∀ row ∈ r.rows, row.budgetHalted r.cancelled = true → r.budgetHalted = true
  /-- and then it did run out, and some case was not run -/
  reached : r.budgetHalted = true → m.Reached ∧ ∃ row ∈ r.rows, row.filtered < row.skipped
  /-- a comparison that was cut short has not passed -/
  passed : r.status = .verdict .passed →
    r.cancelled = false ∧ r.budgetHalted = false ∧ ∀ row ∈ r.rows, row.skipped = 0
  /-- the ledger and the rows agree up to the rounding of each cell -/
  spent : (∀ i, ∀ cell ∈ m.slots i, 0 ≤ cell.genCost + cell.judgeCost) →
    |(r.spent : ℚ) - (r.rows.map fun row => row.genCost + row.judgeCost).sum * 1000000| ≤
      c.total * (1 / 2)

/-- A cell that was skipped, and not for the health of its target, was stopped. -/
theorem eq_stopped_of_cut {cell : Cell} (h : m.Explained cell) (hcut : cell.cut = true) :
    cell = .stopped ∧ m.Halted := by
  unfold Cell.cut at hcut
  rw [Bool.and_eq_true, Bool.not_eq_true'] at hcut
  have hrun : cell.unrun = true := Bool.or_eq_true_iff.2 (.inr hcut.1)
  rcases h hrun with hstop | rfl
  · exact hstop
  · cases hcut.2

section

variable {f : Fin c.total → Cell}

theorem length_cells : ((List.finRange c.total).map f).length = c.targets * c.cases := by simp

/-- A cell of a target's row is a cell of the run. -/
theorem eq_of_mem_byTarget {cs : List Cell} {cell : Cell}
    (hcs : cs ∈ byTarget c.cases c.targets ((List.finRange c.total).map f)) (hcell : cell ∈ cs) :
    ∃ i, f i = cell := by
  have hall : cell ∈ (List.finRange c.total).map f := by
    rw [← byTarget_flatten length_cells]
    exact List.mem_flatten.2 ⟨cs, hcs, hcell⟩
  obtain ⟨i, -, hi⟩ := List.mem_map.1 hall
  exact ⟨i, hi⟩

/-- And every cell of the run is in one. -/
theorem exists_mem_byTarget (i : Fin c.total) :
    ∃ cs ∈ byTarget c.cases c.targets ((List.finRange c.total).map f), f i ∈ cs := by
  have hall : f i ∈ (List.finRange c.total).map f := List.mem_map_of_mem (List.mem_finRange i)
  rw [← byTarget_flatten length_cells] at hall
  exact List.mem_flatten.1 hall

theorem row_halted (hexplained : ∀ i, m.Explained (f i)) {cs : List Cell}
    (hcs : cs ∈ byTarget c.cases c.targets ((List.finRange c.total).map f))
    (h : (TargetRow.of cs).budgetHalted m.cancelled = true) : m.halted = true := by
  obtain ⟨hlt, hcancel⟩ := Bool.and_eq_true_iff.1 h
  have hlt := of_decide_eq_true hlt
  have hsum := TargetRow.of_filtered cs
  have hcut : 0 < cs.countP Cell.cut := by omega
  obtain ⟨cell, hcell, hcut⟩ := List.countP_pos_iff.1 hcut
  obtain ⟨i, rfl⟩ := eq_of_mem_byTarget hcs hcell
  refine (eq_stopped_of_cut (hexplained i) hcut).2.resolve_right ?_
  intro hcancelled
  rw [hcancelled] at hcancel
  cases hcancel

theorem row_stopped {i : Fin c.total} (hi : f i = .stopped) :
    ∃ cs ∈ byTarget c.cases c.targets ((List.finRange c.total).map f),
      (TargetRow.of cs).filtered < (TargetRow.of cs).skipped := by
  obtain ⟨cs, hcs, hcell⟩ := exists_mem_byTarget (f := f) i
  have hcut : 0 < cs.countP Cell.cut := List.countP_pos_iff.2 ⟨f i, hcell, by rw [hi]; rfl⟩
  refine ⟨cs, hcs, ?_⟩
  rw [TargetRow.of_filtered]
  exact Nat.lt_add_of_pos_right hcut

theorem rows_whole {rows : List TargetRow} {cancelled : Bool} {verdict : ℕ → RunStatus}
    (h : aggregateStatus (rows.zipIdx.map fun row => haltStatus cancelled row.1.skipped
      (verdict row.2)) = .verdict .passed) :
    cancelled = false ∧ ∀ row ∈ rows, row.skipped = 0 := by
  obtain ⟨hcancelled, hcutShort, hpassed⟩ := aggregateStatus_passed h
  have hwhole : ∀ row ∈ rows.zipIdx, cancelled = false ∧ row.1.skipped = 0 := by
    intro row hrow
    have hstatus := List.mem_map_of_mem (f := fun row : TargetRow × ℕ =>
      haltStatus cancelled row.1.skipped (verdict row.2)) hrow
    exact haltStatus_whole (fun heq => hcancelled (heq ▸ hstatus))
      (fun heq => hcutShort (heq ▸ hstatus))
  obtain ⟨row, hrow, -⟩ := List.mem_map.1 hpassed
  refine ⟨(hwhole row hrow).1, ?_⟩
  intro row hrow
  obtain ⟨k, hk, rfl⟩ := List.getElem_of_mem hrow
  exact (hwhole (rows[k], k) (by simp [List.mem_zipIdx_iff_getElem?, hk])).2

theorem rows_spent (hexplained : ∀ i, m.Explained (f i))
    (hcost : ∀ i, 0 ≤ (f i).genCost + (f i).judgeCost) :
    |((∑ i, (f i).charge : ℕ) : ℚ) -
      (((byTarget c.cases c.targets ((List.finRange c.total).map f)).map TargetRow.of).map
        fun row => row.genCost + row.judgeCost).sum * 1000000| ≤ c.total * (1 / 2) := by
  rw [TargetRow.sum_cost, byTarget_flatten length_cells, List.map_map]
  have hsum : ((List.finRange c.total).map (Cell.cost ∘ f)).sum = ∑ i, (f i).cost :=
    (Fin.sum_univ_def _).symm
  rw [hsum, Finset.sum_mul, Nat.cast_sum, ← Finset.sum_sub_distrib]
  calc |∑ i, (((f i).charge : ℚ) - (f i).cost * 1000000)|
      ≤ ∑ i, |((f i).charge : ℚ) - (f i).cost * 1000000| := Finset.abs_sum_le_sum_abs ..
    _ ≤ ∑ _i : Fin c.total, (1 / 2 : ℚ) :=
        Finset.sum_le_sum fun i _ => abs_charge_sub_cost_le (hexplained i) (hcost i)
    _ = c.total * (1 / 2) := by simp

end

end LightTrack.Runner
