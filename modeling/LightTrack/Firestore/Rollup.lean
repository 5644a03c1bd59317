import LightTrack.Lib.Selection
import LightTrack.Store.Rollup
import Mathlib.Algebra.Group.Prod

/-! # The grouped rollup on Firestore

There is no `GROUP BY`: the documents of the window are folded one by one into the row
of their bucket.  A document carries the columns of a row, and its metadata as the same
JSON text.

* `rollup` : the fold,
* `Figures` : what a document adds to its row,
* `rollup_perm` : the rows of a query, each the sum over its documents.
-/

namespace LightTrack

/-- `RollupRow::empty`. -/
def RollupRow.empty (keys : List (Option String)) : RollupRow where
  keys := keys
  calls := 0
  inputTokens := 0
  outputTokens := 0
  costUsd := 0
  unpricedCalls := 0
  clientReportedCostUsd := 0
  errors := 0

namespace Firestore

/-! ## The query -/

/-- The `YYYY-MM-DD` prefix of the document's `ts`. -/
def day (m : EventRow) : String := String.ofList ((fmtTs m.ts).toList.take 10)

/-- `value_of`: one document's value on a dimension. A metadata member that is no string is no
value. -/
def valueOf (d : Dimension) (m : EventRow) : Option String :=
  match d.storage with
  | .column value => (value m).asText
  | .metadataKey key => (m.metadata.getD .null).getStr key
  | .day => some (day m)

/-- `fold`: one document into its bucket. -/
def fold (row : RollupRow) (m : EventRow) : RollupRow :=
  let client := (m.metadata.getD .null).getStr "cost_source" == some "client"
  { keys := row.keys
    calls := row.calls + 1
    inputTokens := row.inputTokens + clampU64 m.inputTokens
    outputTokens := row.outputTokens + clampU64 m.outputTokens
    costUsd :=
      match m.costUsd with
      | some c => row.costUsd + c
      | none => row.costUsd
    unpricedCalls :=
      match m.costUsd with
      | some _ => row.unpricedCalls
      | none => row.unpricedCalls + 1
    clientReportedCostUsd :=
      match m.costUsd with
      | some c => if client then row.clientReportedCostUsd + c else row.clientReportedCostUsd
      | none => row.clientReportedCostUsd
    errors := if m.status ≠ .success then row.errors + 1 else row.errors }

/-- The filters pushed to the server. The window is on `ts` whatever the time key. -/
def pushed (q : RollupQuery) (m : EventRow) : Bool :=
  q.project.all (m.projectId == ·) && decide (q.since ≤ m.ts) &&
    q.until_.all (fun u => decide (m.ts < u))

/-- The documents the loop does not skip. -/
def kept (q : RollupQuery) (m : EventRow) : Bool :=
  (!q.unpricedOnly || m.costUsd.isNone) && q.filter.all fun f => valueOf f.1 m == some f.2

/-- The keys of a document. -/
def keysOf (q : RollupQuery) (m : EventRow) : List (Option String) :=
  q.groupBy.map fun d => valueOf d m

/-- The order of the map's keys. -/
def keysLe : List (Option String) → List (Option String) → Bool
  | [], _ => true
  | _ :: _, [] => false
  | k :: ks, k' :: ks' =>
    if k = k' then keysLe ks ks'
    else
      match k, k' with
      | none, _ => true
      | some _, none => false
      | some s, some s' => decide (s < s')

/-- The loop over the documents. -/
def aggregate (q : RollupQuery) (docs : List EventRow) : List (List (Option String) × RollupRow) :=
  (docs.filter (kept q)).foldl
    (fun agg m => Group.accumulate (keysOf q) RollupRow.empty fold m agg) []

/-- `rollup`. -/
def rollup (rows : List EventRow) (q : RollupQuery) : Except StoreError (List RollupRow) :=
  match q.invalid with
  | some why => .error (.other why)
  | none =>
    let agg := aggregate q (rows.filter (pushed q))
    .ok ((agg.mergeSort fun a b => keysLe a.1 b.1).map Prod.snd)

end Firestore

/-! ## What a document adds -/

/-- Calls, input tokens, output tokens, cost, unpriced calls, client-reported cost, errors. -/
abbrev Figures := ℕ × ℤ × ℤ × ℚ × ℕ × ℚ × ℕ

/-- What a row adds to its group, a negative count clamped to zero. -/
def EventRow.figures (m : EventRow) : Figures :=
  (1, max m.inputTokens 0, max m.outputTokens 0, m.costUsd.getD 0,
    if m.costUsd.isNone then 1 else 0, if m.isClientCost then m.costUsd.getD 0 else 0,
    if m.status ≠ .success then 1 else 0)

/-- The row under these keys with these figures. -/
def Figures.row (keys : List (Option String)) (f : Figures) : RollupRow where
  keys := keys
  calls := f.1
  inputTokens := EventRow.asU64 f.2.1
  outputTokens := EventRow.asU64 f.2.2.1
  costUsd := f.2.2.2.1
  unpricedCalls := f.2.2.2.2.1
  clientReportedCostUsd := f.2.2.2.2.2.1
  errors := f.2.2.2.2.2.2

theorem EventRow.asU64_add (a b : Int) :
    EventRow.asU64 (a + b) = EventRow.asU64 a + EventRow.asU64 b := by
  have hpos : (0 : Int) < 2 * i64Bound := by decide
  have ha := Int.emod_nonneg a hpos.ne'
  have hb := Int.emod_nonneg b hpos.ne'
  have hsum : (((a % (2 * i64Bound)).toNat + (b % (2 * i64Bound)).toNat : ℕ) : Int) =
      a % (2 * i64Bound) + b % (2 * i64Bound) := by
    push_cast
    rw [Int.toNat_of_nonneg ha, Int.toNat_of_nonneg hb]
  unfold EventRow.asU64
  rw [← UInt64.ofNat_add, ← UInt64.toNat_inj, UInt64.toNat_ofNat', UInt64.toNat_ofNat']
  unfold i64Bound at *
  omega

/-- The client's mark on a cost is a string. -/
theorem EventRow.isClientCost_eq (m : EventRow) :
    m.isClientCost = ((m.metadata.getD .null).getStr "cost_source" == some "client") := by
  have hget : (m.metadata.getD .null).get "cost_source" =
      m.metadata.bind (Json.get "cost_source") := by
    cases m.metadata <;> rfl
  rw [Bool.eq_iff_iff, beq_iff_eq]
  unfold EventRow.isClientCost
  rw [beq_iff_eq, jsonExtract_eq_text_iff, Json.getStr_eq_some_iff, hget]
  constructor
  · rintro (h | ⟨j, -, hcomp, hrender⟩)
    · exact h
    · -- no array or object is written as `client`
      rcases render_isComposite hcomp with h | h <;> rw [hrender] at h <;> simp at h
  · intro h
    exact .inl h

namespace Firestore

/-- One document adds its figures. -/
theorem fold_row (keys : List (Option String)) (f : Figures) (m : EventRow) :
    fold (f.row keys) m = Figures.row keys (f + m.figures) := by
  unfold fold Figures.row EventRow.figures
  simp only [Prod.fst_add, Prod.snd_add, EventRow.asU64_add, EventRow.isClientCost_eq]
  unfold clampU64
  cases m.costUsd with
  | none => by_cases hs : m.status = .success <;> simp [hs]
  | some c =>
    by_cases hs : m.status = .success <;>
      by_cases hc : (m.metadata.getD .null).getStr "cost_source" = some "client" <;> simp [hs, hc]

theorem row_zero (keys : List (Option String)) : Figures.row keys 0 = RollupRow.empty keys := rfl

theorem foldl_row (keys : List (Option String)) (docs : List EventRow) (f : Figures) :
    docs.foldl fold (f.row keys) = Figures.row keys (f + (docs.map EventRow.figures).sum) := by
  induction docs generalizing f with
  | nil => rw [List.foldl_nil, List.map_nil, List.sum_nil, add_zero]
  | cons m docs ih => rw [List.foldl_cons, fold_row, ih, List.map_cons, List.sum_cons, add_assoc]

/-- The row of a group. -/
def figuresRow (g : List (Option String) × List EventRow) : RollupRow :=
  Figures.row g.1 (g.2.map EventRow.figures).sum

/-- Every valid query is answered. -/
theorem exists_rollup_iff (rows : List EventRow) (q : RollupQuery) :
    (∃ out, rollup rows q = .ok out) ↔ q.invalid = none := by
  unfold rollup
  cases q.invalid with
  | none => simp
  | some why => simp

/-- **The rows of a query**, up to their order: the groups, each with the sum of its figures. -/
theorem rollup_perm {rows : List EventRow} {q : RollupQuery} {out : List RollupRow}
    (h : rollup rows q = .ok out) :
    out.Perm ((Group.groupsBy (keysOf q)
      ((rows.filter (pushed q)).filter (kept q))).map figuresRow) := by
  unfold rollup at h
  cases hq : q.invalid with
  | some why =>
    rw [hq] at h
    cases h
  | none =>
    rw [hq] at h
    simp only [Except.ok.injEq] at h
    rw [← h]
    have hagg := Group.foldl_accumulate_perm (keysOf q) RollupRow.empty fold
      ((rows.filter (pushed q)).filter (kept q))
    have hrows := ((List.mergeSort_perm (aggregate q (rows.filter (pushed q)))
      fun a b => keysLe a.1 b.1).trans hagg).map Prod.snd
    refine hrows.trans (.of_eq ?_)
    rw [List.map_map]
    refine List.map_congr_left ?_
    intro g _
    have hfold := foldl_row g.1 g.2 0
    rw [row_zero, zero_add] at hfold
    exact hfold

end Firestore

end LightTrack
