import LightTrack.Lib.Group
import LightTrack.Lib.Traverse
import LightTrack.Store.Codec
import LightTrack.Store.Events

/-! # The grouped rollup

Usage and cost over a window, grouped by one to three dimensions.  A dimension is a
column, a member of the JSON metadata, or the calendar day of the window's clock.

Sums come back from SQLite as `i64` and enter the row as `u64`, negative ones
clamped to zero.

* `rollupRow_eq_ok_iff` : when a group can be read, and as what.
-/

namespace LightTrack

/-! ## The vocabulary -/

/-- What usage can be grouped or filtered by. -/
inductive Dimension where
  | project
  | provider
  | model
  | name
  | apiKey
  | customer
  | product
  | prompt
  | day
  deriving DecidableEq

/-- How a dimension is stored on an event row. -/
inductive Storage where
  | column (value : EventRow → SqlValue)
  | metadataKey (key : String)
  | day

namespace Dimension

/-- The wire name. -/
def asStr : Dimension → String
  | project => "project"
  | provider => "provider"
  | model => "model"
  | name => "name"
  | apiKey => "api_key"
  | customer => "customer"
  | product => "product"
  | prompt => "prompt"
  | day => "day"

/-- Every dimension, in presentation order. -/
def all : List Dimension :=
  [project, provider, model, name, apiKey, customer, product, prompt, day]

/-- `Dimension::parse`. -/
def parse (s : String) : Option Dimension := all.find? fun d => d.asStr == s

/-- Where the dimension's value lives. -/
def storage : Dimension → Storage
  | project => .column fun r => .text r.projectId
  | provider => .column fun r => .text r.provider
  | model => .column fun r => .text r.model
  | name => .column fun r => match r.name with
    | some n => .text n
    | none => .null
  | apiKey => .metadataKey "api_key_id"
  | customer => .metadataKey "customer_id"
  | product => .metadataKey "product_id"
  | prompt => .metadataKey "prompt"
  | day => .day

end Dimension

/-- Which timestamp the window and the day bucket are measured on. -/
inductive TimeKey where
  | ts
  | receivedAt
  deriving DecidableEq

/-- `MAX_GROUP_BY`. -/
def MAX_GROUP_BY : ℕ := 3

/-- One grouped-rollup request. -/
structure RollupQuery where
  project : Option String := none
  groupBy : List Dimension
  since : Time
  until_ : Option Time := none
  timeKey : TimeKey := .ts
  filter : List (Dimension × String) := []
  unpricedOnly : Bool := false

/-- Why a query cannot be answered as written. -/
def RollupQuery.invalid (q : RollupQuery) : Option String :=
  if q.groupBy.isEmpty then some "a rollup needs at least one group_by dimension"
  else if MAX_GROUP_BY < q.groupBy.length then
    some ("a rollup groups by at most " ++ toString MAX_GROUP_BY ++ " dimensions, got " ++
      toString q.groupBy.length)
  else
    -- the first dimension that was named before
    match (q.groupBy.zipIdx.find? fun d => decide (d.1 ∈ q.groupBy.take d.2)) with
    | some d => some ("duplicate group_by dimension '" ++ d.1.asStr ++ "'")
    | none =>
      if q.filter.any fun f => f.1 == .day then
        some "the `day` dimension cannot be filtered on; use the window"
      else if q.until_.any fun u => decide (u < q.since) then
        some "window end precedes its start"
      else none

/-- One grouped row. -/
structure RollupRow where
  keys : List (Option String)
  calls : ℕ
  inputTokens : UInt64
  outputTokens : UInt64
  costUsd : ℚ
  unpricedCalls : ℕ
  clientReportedCostUsd : ℚ
  errors : ℕ

/-- `RollupRow::tokens`. -/
def RollupRow.tokens (r : RollupRow) : UInt64 := r.inputTokens + r.outputTokens

/-- `RollupRow::key`. -/
def RollupRow.key (r : RollupRow) (i : ℕ) : Option String := (r.keys[i]?).join

/-! ## The query -/

/-- `time_expr`. -/
def timeExpr (k : TimeKey) (r : EventRow) : Time :=
  match k with
  | .ts => r.ts
  | .receivedAt => r.windowTs

/-- `key_expr`: one dimension's value for a row. -/
def keyExpr (k : TimeKey) (d : Dimension) (r : EventRow) : SqlValue :=
  match d.storage with
  | .column value => value r
  | .metadataKey key => jsonExtract r.metadata key
  | .day => .text (String.ofList ((fmtTs (timeExpr k r)).toList.take 10))

/-- The `WHERE` clause. -/
def RollupQuery.selects (q : RollupQuery) (r : EventRow) : Bool :=
  q.project.all (r.projectId == ·) && decide (q.since ≤ timeExpr q.timeKey r) &&
    q.until_.all (fun u => decide (timeExpr q.timeKey r < u)) &&
    (!q.unpricedOnly || r.costUsd.isNone) &&
    q.filter.all fun f => keyExpr q.timeKey f.1 r == .text f.2

/-- `v.max(0) as u64`. -/
def clampU64 (v : Int) : UInt64 := EventRow.asU64 (max v 0)

/-- `map_row`: one group, its keys first, then its counts and sums. -/
def rollupRow (g : List SqlValue × List EventRow) : Except SqliteError RollupRow := do
  let keys ← g.1.mapM SqlValue.getOptString
  let inputTokens ← sumI64 (g.2.map fun r => .integer r.inputTokens)
  let outputTokens ← sumI64 (g.2.map fun r => .integer r.outputTokens)
  return {
    keys
    calls := g.2.length
    inputTokens := clampU64 inputTokens
    outputTokens := clampU64 outputTokens
    costUsd := (g.2.map fun r => r.costUsd.getD 0).sum
    unpricedCalls := (g.2.filter fun r => r.costUsd.isNone).length
    clientReportedCostUsd :=
      (g.2.map fun r => if r.isClientCost then r.costUsd.getD 0 else 0).sum
    errors := (g.2.filter fun r => decide (r.status ≠ .success)).length }

/-- The groups of a query, in no particular order. -/
def RollupQuery.groups (q : RollupQuery) (rows : List EventRow) :
    List (List SqlValue × List EventRow) :=
  Group.groupsBy (fun r => q.groupBy.map fun d => keyExpr q.timeKey d r) (rows.filter q.selects)

/-- `rollup`. -/
def rollup (rows : List EventRow) (q : RollupQuery) : Except StoreError (List RollupRow) :=
  match q.invalid with
  | some why => .error (.other why)
  | none =>
    match (q.groups rows).mapM rollupRow with
    | .error e => .error (.sqlite e)
    | .ok out => .ok out

/-! ## Reading a group -/

/-- When the token sums of a group can be read. -/
def SumsFit (rows : List EventRow) : Prop :=
  PartialSumsFit 0 (rows.map EventRow.inputTokens) ∧
    PartialSumsFit 0 (rows.map EventRow.outputTokens)

instance (rows : List EventRow) : Decidable (SumsFit rows) := inferInstanceAs (Decidable (_ ∧ _))

/-- When the token totals of a group are `i64`s. -/
def GroupTotalsFit (rows : List EventRow) : Prop :=
  InI64 (rows.map EventRow.inputTokens).sum ∧ InI64 (rows.map EventRow.outputTokens).sum

instance (rows : List EventRow) : Decidable (GroupTotalsFit rows) := inferInstanceAs (Decidable (_ ∧ _))

/-- Sums that fit on the way fit at the end. -/
theorem SumsFit.groupTotalsFit {rows : List EventRow} (h : SumsFit rows) : GroupTotalsFit rows := by
  have hzero : InI64 0 := by decide
  have hin := h.1.inI64_sum hzero
  have hout := h.2.inI64_sum hzero
  rw [zero_add] at hin hout
  exact ⟨hin, hout⟩

/-- The row a readable group is read as. -/
def groupRow (keys : List (Option String)) (rows : List EventRow) : RollupRow where
  keys := keys
  calls := rows.length
  inputTokens := clampU64 (rows.map EventRow.inputTokens).sum
  outputTokens := clampU64 (rows.map EventRow.outputTokens).sum
  costUsd := (rows.map fun r => r.costUsd.getD 0).sum
  unpricedCalls := (rows.filter fun r => r.costUsd.isNone).length
  clientReportedCostUsd := (rows.map fun r => if r.isClientCost then r.costUsd.getD 0 else 0).sum
  errors := (rows.filter fun r => decide (r.status ≠ .success)).length

/-- **A group reads exactly when its keys are texts and its sums fit**, and then as its own row. -/
theorem rollupRow_eq_ok_iff (g : List SqlValue × List EventRow) (row : RollupRow) :
    rollupRow g = .ok row ↔
      ((∀ k ∈ g.1, k.IsTextual) ∧ SumsFit g.2) ∧ row = groupRow (g.1.map SqlValue.asText) g.2 := by
  rcases g with ⟨ks, rows⟩
  have hkeys : ∀ os, ks.mapM SqlValue.getOptString = .ok os ↔
      (∀ k ∈ ks, k.IsTextual) ∧ os = ks.map SqlValue.asText :=
    fun os => Traverse.mapM_eq_map_iff fun v o => SqlValue.getOptString_eq_ok_iff
  have hin := fun n => sumI64_map_eq_ok_iff (n := n) EventRow.inputTokens rows
  have hout := fun n => sumI64_map_eq_ok_iff (n := n) EventRow.outputTokens rows
  unfold rollupRow SumsFit
  simp only
  -- each read either fails or gives the value the condition names
  cases hk : ks.mapM SqlValue.getOptString with
  | error e =>
    have hno : ¬ ∀ k ∈ ks, k.IsTextual := by
      intro hall
      rw [(hkeys _).2 ⟨hall, rfl⟩] at hk
      cases hk
    simp [hno, bind, Except.bind]
  | ok keys =>
    rcases (hkeys _).1 hk with ⟨hall, rfl⟩
    cases hi : sumI64 (rows.map fun r => .integer r.inputTokens) with
    | error e =>
      have hno : ¬ PartialSumsFit 0 (rows.map EventRow.inputTokens) := by
        intro hfit
        rw [(hin _).2 ⟨hfit, rfl⟩] at hi
        cases hi
      simp [hno, bind, Except.bind]
    | ok n =>
      rcases (hin _).1 hi with ⟨hfit, rfl⟩
      cases ho : sumI64 (rows.map fun r => .integer r.outputTokens) with
      | error e =>
        have hno : ¬ PartialSumsFit 0 (rows.map EventRow.outputTokens) := by
          intro hfit
          rw [(hout _).2 ⟨hfit, rfl⟩] at ho
          cases ho
        simp [hno, bind, Except.bind]
      | ok m =>
        rcases (hout _).1 ho with ⟨hfit', rfl⟩
        simp only [bind, Except.bind, pure, Except.pure, Except.ok.injEq]
        constructor
        · intro h
          exact ⟨⟨hall, hfit, hfit'⟩, h.symm⟩
        · rintro ⟨-, rfl⟩
          rfl

end LightTrack
