import LightTrack.Store.Sql

/-! # The events table

Rows keep the columns the modelled queries read.  `id` is the primary key and the
implicit rowid is one more than the largest, so the rows of a table are in strictly
increasing rowid order with unique ids; both are fields of `EventTable`.

* `EventTable.insert` : append a row, or report a conflict,
* `usageSince`, `usageSinceExact`, `usageByScope` : the full-window aggregates,
* `usageCols_eq_ok_iff` : an aggregate that can be read is the exact sum over its rows.
-/

namespace LightTrack

/-- One row of `events`. -/
structure EventRow where
  rowid : Nat
  id : String
  projectId : String
  traceId : Option String
  spanId : Option String
  parentSpanId : Option String
  ts : Time
  receivedAt : Option Time
  provider : String
  model : String
  name : Option String
  inputTokens : Int
  outputTokens : Int
  cachedInputTokens : Option Int
  reasoningTokens : Option Int
  costUsd : Option ℚ
  latencyMs : Option Int
  status : Status
  error : Option String
  input : Option Json
  output : Option Json
  tags : List String
  source : Option String
  metadata : Option Json

namespace EventRow

/-- The row `INSERT INTO events` writes for an event. -/
def ofEvent (rowid : Nat) (ev : LlmEvent) : EventRow where
  rowid := rowid
  id := ev.id
  projectId := ev.projectId
  traceId := ev.traceId
  spanId := ev.spanId
  parentSpanId := ev.parentSpanId
  ts := ev.ts
  receivedAt := some ev.receivedAt
  provider := ev.provider.asStr
  model := ev.model
  name := ev.name
  inputTokens := asI64 ev.usage.input
  outputTokens := asI64 ev.usage.output
  cachedInputTokens := ev.usage.cachedInput.map asI64
  reasoningTokens := ev.usage.reasoning.map asI64
  costUsd := ev.costUsd
  latencyMs := ev.latencyMs.map asI64
  status := ev.status
  error := ev.error
  input := ev.input
  output := ev.output
  tags := ev.tags
  source := ev.source
  metadata := if ev.metadata.isNull then none else some ev.metadata

/-- `v as u64` of an INTEGER column. -/
def asU64 (i : Int) : UInt64 := UInt64.ofNat (i % (2 * i64Bound)).toNat

/-- The event a row reads back as. -/
def toEvent (r : EventRow) : LlmEvent where
  id := r.id
  projectId := r.projectId
  traceId := r.traceId
  spanId := r.spanId
  parentSpanId := r.parentSpanId
  ts := r.ts
  receivedAt := r.receivedAt.getD r.ts
  provider := .new r.provider
  model := r.model
  name := r.name
  usage :=
    { input := asU64 r.inputTokens
      output := asU64 r.outputTokens
      cachedInput := r.cachedInputTokens.map asU64
      reasoning := r.reasoningTokens.map asU64 }
  costUsd := r.costUsd
  latencyMs := r.latencyMs.map asU64
  status := r.status
  error := r.error
  input := r.input
  output := r.output
  tags := r.tags
  source := r.source
  metadata := r.metadata.getD .null

/-- `COALESCE(received_at, ts)`, the axis rolling windows are measured on. -/
def windowTs (r : EventRow) : Time := r.receivedAt.getD r.ts

/-- `input_tokens + output_tokens`. -/
def tokens (r : EventRow) : SqlValue := .addI64 r.inputTokens r.outputTokens

/-- Whether the stored cost is the client's own number. -/
def isClientCost (r : EventRow) : Bool := jsonExtract r.metadata "cost_source" == .text "client"

/-- What one row adds to rolling usage, in exact arithmetic. -/
def contribution (r : EventRow) : Usage where
  costUsd := r.costUsd.getD 0
  calls := 1
  tokens := r.inputTokens + r.outputTokens
  unpricedCalls := if r.costUsd.isNone then 1 else 0
  clientCostUsd := if r.isClientCost then r.costUsd.getD 0 else 0

@[simp] theorem asU64_asI64 (n : UInt64) : asU64 (asI64 n) = n := by
  unfold asU64
  rw [asI64_emod, Int.toNat_natCast, UInt64.ofNat_toNat]

@[simp] theorem windowTs_ofEvent (rowid : Nat) (ev : LlmEvent) :
    (ofEvent rowid ev).windowTs = ev.receivedAt := rfl

end EventRow

/-! ## The table -/

/-- The events table, in rowid order. -/
structure EventTable where
  rows : List EventRow
  rowids : rows.Pairwise (fun a b => a.rowid < b.rowid)
  rowids_pos : ∀ r ∈ rows, 0 < r.rowid
  ids : (rows.map EventRow.id).Nodup

namespace EventTable

/-- The table of a fresh database. -/
def empty : EventTable := ⟨[], .nil, by simp, by simp⟩

@[simp] theorem empty_rows : empty.rows = [] := rfl

@[ext] theorem ext {t t' : EventTable} (h : t.rows = t'.rows) : t = t' := by
  cases t
  cases t'
  simpa using h

/-- The largest rowid in use. -/
def maxRowid (rows : List EventRow) : Nat := (rows.map EventRow.rowid).foldr max 0

theorem le_maxRowid {rows : List EventRow} {r : EventRow} (h : r ∈ rows) :
    r.rowid ≤ maxRowid rows := by
  unfold maxRowid
  induction rows with
  | nil => simp at h
  | cons a rows ih =>
    rw [List.map_cons, List.foldr_cons]
    rcases List.mem_cons.1 h with rfl | h
    · exact le_max_left _ _
    · exact (ih h).trans (le_max_right _ _)

theorem maxRowid_le {rows : List EventRow} {n : Nat} (h : ∀ r ∈ rows, r.rowid ≤ n) :
    maxRowid rows ≤ n := by
  unfold maxRowid
  induction rows with
  | nil => exact Nat.zero_le _
  | cons a rows ih =>
    rw [List.map_cons, List.foldr_cons]
    exact max_le (h a (List.mem_cons_self ..)) (ih fun r hr => h r (List.mem_cons_of_mem _ hr))

/-- Whether an event id is taken. -/
def hasId (t : EventTable) (id : String) : Bool := t.rows.any fun r => r.id == id

theorem not_mem_ids {t : EventTable} {id : String} (h : t.hasId id = false) :
    id ∉ t.rows.map EventRow.id := by
  intro hmem
  obtain ⟨r, hr, rfl⟩ := List.mem_map.1 hmem
  have hno := List.any_eq_false.1 h r hr
  simp at hno

/-- The row the next insert writes. -/
def nextRow (t : EventTable) (ev : LlmEvent) : EventRow := .ofEvent (maxRowid t.rows + 1) ev

/-- The table with `ev` appended under a fresh rowid. -/
def append (t : EventTable) (ev : LlmEvent) (h : t.hasId ev.id = false) : EventTable where
  rows := t.rows ++ [t.nextRow ev]
  rowids := by
    refine List.pairwise_append.2 ⟨t.rowids, List.pairwise_singleton _ _, fun a ha b hb => ?_⟩
    rw [List.mem_singleton.1 hb]
    exact Nat.lt_succ_of_le (le_maxRowid ha)
  rowids_pos := by
    intro r hr
    rcases List.mem_append.1 hr with hr | hr
    · exact t.rowids_pos r hr
    · rw [List.mem_singleton.1 hr]
      exact Nat.succ_pos _
  ids := by
    rw [List.map_append]
    refine List.nodup_append.2 ⟨t.ids, by simp, fun id hid id' hid' heq => ?_⟩
    have hev : id' = ev.id := by simpa [nextRow, EventRow.ofEvent] using hid'
    exact not_mem_ids h (hev ▸ heq ▸ hid)

/-- `events::insert`: a taken id is a conflict. -/
def insert (t : EventTable) (ev : LlmEvent) : Except StoreError EventTable :=
  if h : t.hasId ev.id = true then
    .error (.conflict ("event '" ++ ev.id ++ "' already exists"))
  else .ok (t.append ev (by simpa using h))

theorem insert_of_hasId {t : EventTable} {ev : LlmEvent} (h : t.hasId ev.id = true) :
    t.insert ev = .error (.conflict ("event '" ++ ev.id ++ "' already exists")) :=
  dif_pos h

/-- A successful insert appends exactly the event's row. -/
theorem rows_of_insert {t t' : EventTable} {ev : LlmEvent} (h : t.insert ev = .ok t') :
    t.hasId ev.id = false ∧ t'.rows = t.rows ++ [t.nextRow ev] := by
  unfold insert at h
  split_ifs at h with hid
  · rw [← Except.ok.inj h]
    exact ⟨by simpa using hid, rfl⟩

/-- `events::get`: the row with this id, if the project owns it. -/
def get (t : EventTable) (project id : String) : Option LlmEvent :=
  (t.rows.find? fun r => r.id == id && r.projectId == project).map EventRow.toEvent

/-- Rewrite rows in place, keeping every key. -/
def mapRows (t : EventTable) (f : EventRow → EventRow) (hrowid : ∀ r, (f r).rowid = r.rowid)
    (hid : ∀ r, (f r).id = r.id) : EventTable where
  rows := t.rows.map f
  rowids := by
    rw [List.pairwise_map]
    simpa only [hrowid] using t.rowids
  rowids_pos := by
    intro r hr
    obtain ⟨r', hr', rfl⟩ := List.mem_map.1 hr
    rw [hrowid]
    exact t.rowids_pos r' hr'
  ids := by
    have hcomp : EventRow.id ∘ f = EventRow.id := funext hid
    rw [List.map_map, hcomp]
    exact t.ids

end EventTable

/-! ## Window aggregates -/

/-- `project_id = ?1 AND COALESCE(received_at, ts) >= ?2`. -/
def inWindow (project : String) (since : Time) (r : EventRow) : Bool :=
  r.projectId == project && decide (since ≤ r.windowTs)

/-- `USAGE_COLS` over a group of rows. -/
def usageCols (rows : List EventRow) : Except StoreError Usage :=
  match sumI64 (rows.map EventRow.tokens) with
  | .error e => .error (.sqlite e)
  | .ok tokens =>
    .ok
      { costUsd := (rows.map fun r => r.costUsd.getD 0).sum
        calls := rows.length
        tokens
        unpricedCalls := (rows.map fun r => if r.costUsd.isNone then 1 else 0).sum
        clientCostUsd := (rows.map fun r => if r.isClientCost then r.costUsd.getD 0 else 0).sum }

/-- `usage_since`: one project's rolling usage. -/
def usageSince (rows : List EventRow) (project : String) (since : Time) : Except StoreError Usage :=
  usageCols (rows.filter (inWindow project since))

/-- `scope_expr`: the value of one scope dimension for a row. -/
def scopeExpr (s : LimitScope) (r : EventRow) : SqlValue :=
  match s with
  | .provider _ => .text r.provider
  | .model _ => .text r.model
  | .name _ => match r.name with
    | some n => .text n
    | none => .null
  | .apiKey _ => jsonExtract r.metadata "api_key_id"
  | .customer _ => jsonExtract r.metadata "customer_id"

/-- Rolling usage restricted to rows whose scope dimension equals the scoped value. -/
def usageSinceExact (rows : List EventRow) (project : String) (since : Time) (s : LimitScope) :
    Except StoreError Usage :=
  usageCols (rows.filter fun r => inWindow project since r && scopeExpr s r == .text s.value)

/-- Rolling usage for one value of a scope dimension. -/
structure ScopeUsage where
  value : Option String
  usage : Usage
  deriving DecidableEq

/-- One group of `usage_by_scope`: the rows of `window` whose dimension is `k`. -/
def scopeGroup (window : List EventRow) (s : LimitScope) (k : SqlValue) :
    Except StoreError ScopeUsage :=
  match usageCols (window.filter fun r => scopeExpr s r == k), k.getOptString with
  | .ok usage, .ok value => .ok { value, usage }
  | .error e, _ => .error e
  | .ok _, .error e => .error (.sqlite e)

/-- `usage_by_scope`: rolling usage grouped by every distinct value of one dimension, most
expensive first. The dimension is that of `s`. -/
def usageByScope (rows : List EventRow) (project : String) (since : Time) (s : LimitScope) :
    Except StoreError (List ScopeUsage) :=
  let window := rows.filter (inWindow project since)
  let groups := (window.map (scopeExpr s)).dedup.mapM (scopeGroup window s)
  groups.map fun gs => gs.mergeSort fun a b => decide (b.usage.costUsd ≤ a.usage.costUsd)

/-! ## Reading an aggregate -/

/-- Whether a row's token sum stays an INTEGER. -/
def EventRow.TokensFit (r : EventRow) : Prop := InI64 (r.inputTokens + r.outputTokens)

instance (r : EventRow) : Decidable r.TokensFit := inferInstanceAs (Decidable (InI64 _))

theorem EventRow.tokens_of_fit {r : EventRow} (h : r.TokensFit) :
    r.tokens = .integer (r.inputTokens + r.outputTokens) :=
  if_pos h

/-- The exact token sums of a group, in rowid order. -/
def tokenSums (rows : List EventRow) : List Int :=
  rows.map fun r => r.inputTokens + r.outputTokens

/-- When the token aggregate of a group can be read. -/
def GroupFits (rows : List EventRow) : Prop :=
  (∀ r ∈ rows, r.TokensFit) ∧ PartialSumsFit 0 (tokenSums rows)

instance (rows : List EventRow) : Decidable (GroupFits rows) :=
  inferInstanceAs (Decidable (_ ∧ _))

theorem sum_contribution (rows : List EventRow) :
    (rows.map EventRow.contribution).sum =
      { costUsd := (rows.map fun r => r.costUsd.getD 0).sum
        calls := rows.length
        tokens := (tokenSums rows).sum
        unpricedCalls := (rows.map fun r => if r.costUsd.isNone then 1 else 0).sum
        clientCostUsd := (rows.map fun r => if r.isClientCost then r.costUsd.getD 0 else 0).sum } := by
  induction rows with
  | nil => rfl
  | cons r rows ih =>
    rw [List.map_cons, List.sum_cons, ih]
    ext <;> simp [tokenSums, EventRow.contribution, add_comm]

/-- An aggregate reads exactly when its token sums fit, and then it is the exact sum over the
group. -/
theorem usageCols_eq_ok_iff (rows : List EventRow) (u : Usage) :
    usageCols rows = .ok u ↔ GroupFits rows ∧ u = (rows.map EventRow.contribution).sum := by
  by_cases hrows : ∀ r ∈ rows, r.TokensFit
  · have hmap : rows.map EventRow.tokens = (tokenSums rows).map .integer := by
      unfold tokenSums
      rw [List.map_map]
      exact List.map_congr_left fun r hr => EventRow.tokens_of_fit (hrows r hr)
    unfold usageCols
    rw [hmap, sum_contribution]
    cases hsum : sumI64 ((tokenSums rows).map .integer) with
    | error e =>
      have hno : ¬ GroupFits rows := by
        rintro ⟨-, hfit⟩
        rw [(sumI64_eq_ok_iff _).2 ⟨hfit, rfl⟩] at hsum
        cases hsum
      simp [hno]
    | ok n =>
      obtain ⟨hfit, rfl⟩ := (sumI64_eq_ok_iff _).1 hsum
      constructor
      · intro h
        exact ⟨⟨hrows, hfit⟩, (Except.ok.inj h).symm⟩
      · rintro ⟨-, rfl⟩
        rfl
  · have hno : ¬ GroupFits rows := fun h => hrows h.1
    have hreal : SqlValue.real ∈ rows.map EventRow.tokens := by
      push Not at hrows
      obtain ⟨r, hr, hfit⟩ := hrows
      exact List.mem_map.2 ⟨r, hr, if_neg hfit⟩
    obtain ⟨e, he⟩ := sumI64_of_real hreal
    simp [usageCols, he, hno]

theorem usageCols_of_fits {rows : List EventRow} (h : GroupFits rows) :
    usageCols rows = .ok (rows.map EventRow.contribution).sum :=
  (usageCols_eq_ok_iff rows _).2 ⟨h, rfl⟩

end LightTrack
