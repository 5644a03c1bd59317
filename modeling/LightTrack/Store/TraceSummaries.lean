import LightTrack.Core.TraceShape
import LightTrack.Lib.Group
import LightTrack.Store.EventPages

/-! # Trace summaries

`list_trace_summaries_filtered` rolls the events up in SQL, one row for each `trace_id`, and builds
each summary through `TraceShape`.  An integer sum that leaves `i64` fails the statement for all
groups, whatever `HAVING` keeps.

* `traceGroup_eq_ok_iff` : when the aggregates of a group can be computed,
* `readSummary_exactGroup_iff` : when the row of a group can be read.
-/

namespace LightTrack

/-- `TraceFilter`. -/
structure TraceFilter where
  since : Option Time := none
  until_ : Option Time := none
  status : Option String := none
  minCost : Option ℚ := none
  cursor : Option String := none

/-- `TraceSummary`. -/
structure TraceSummary where
  traceId : String
  projectId : String
  startedAt : Time
  endedAt : Time
  durationMs : Int
  spans : ℕ
  costUsd : ℚ
  inputTokens : UInt64
  outputTokens : UInt64
  totalTokens : UInt64
  errors : ℕ
  status : String
  models : List String
  deriving DecidableEq

/-- Why a read of traces fails. -/
inductive TraceError where
  | store (e : StoreError)
  | panic (o : Overflow)
  deriving DecidableEq

/-! ## The aggregate -/

/-- The `WHERE` clause. -/
def inScope (project : Option String) (since : Option Time) (r : EventRow) : Bool :=
  r.traceId.any (fun id => id != "") &&
    project.all (fun p => r.projectId == p) &&
    since.all (fun t => decide (fmtTs t ≤ fmtTs r.ts))

/-- The column the rows in scope are grouped by. -/
def EventRow.traceKey (r : EventRow) : String := r.traceId.getD ""

/-- One row of the aggregate. -/
structure TraceGroup where
  traceId : String
  projectId : String
  started : String
  ended : String
  finishMs : SqlValue
  spans : ℕ
  cost : ℚ
  it : Int
  ot : Int
  errs : ℕ

/-- `strftime('%s', ts) * 1000 + substr(ts, 21, 3) + COALESCE(latency_ms, 0)`. A timestamp with a
sign has no such value; its row fails the read of `MIN(ts)` in any case. -/
def EventRow.finishMs (r : EventRow) : Option Int :=
  if FourDigitYear r.ts then
    some (r.ts / Time.second * 1000 + r.ts % Time.second / Time.millisecond + r.latencyMs.getD 0)
  else none

/-- `MAX(..) AS finish_ms`. A sum that leaves `i64` is a REAL, which compares by its value. -/
def maxFinishMs (rows : List EventRow) : SqlValue :=
  match (rows.filterMap EventRow.finishMs).max? with
  | none => .null
  | some n => if InI64 n then .integer n else .real

/-- The row of a group when its sums are computed. -/
def exactGroup (g : String × List EventRow) : TraceGroup where
  traceId := g.1
  projectId := (g.2.map EventRow.projectId).min?.getD ""
  started := (g.2.map fun r => fmtTs r.ts).min?.getD ""
  ended := (g.2.map fun r => fmtTs r.ts).max?.getD ""
  finishMs := maxFinishMs g.2
  spans := g.2.length
  cost := (g.2.map fun r => r.costUsd.getD 0).sum
  it := (g.2.map EventRow.inputTokens).sum
  ot := (g.2.map EventRow.outputTokens).sum
  errs := g.2.countP fun r => r.status != .success

/-- `TRACE_SUMMARY_COLS` over one group. -/
def traceGroup (g : String × List EventRow) : Except StoreError TraceGroup := do
  let it ← (sumI64 (g.2.map fun r => .integer r.inputTokens)).mapError .sqlite
  let ot ← (sumI64 (g.2.map fun r => .integer r.outputTokens)).mapError .sqlite
  return { exactGroup g with it, ot }

/-- The sums of a group stay within `i64`. -/
def TokenSumsFit (rows : List EventRow) : Prop :=
  PartialSumsFit 0 (rows.map EventRow.inputTokens) ∧
    PartialSumsFit 0 (rows.map EventRow.outputTokens)

instance (rows : List EventRow) : Decidable (TokenSumsFit rows) := inferInstanceAs (Decidable (_ ∧ _))

/-- **The aggregates of a group can be computed** exactly when its sums fit on the way. -/
theorem traceGroup_eq_ok_iff {g : String × List EventRow} {G : TraceGroup} :
    traceGroup g = .ok G ↔ TokenSumsFit g.2 ∧ G = exactGroup g := by
  unfold traceGroup TokenSumsFit
  simp only [Traverse.bind_eq_ok_iff, Traverse.mapError_eq_ok_iff, sumI64_map_eq_ok_iff, pure,
    Except.pure, Except.ok.injEq]
  constructor
  · rintro ⟨it, ⟨hit, rfl⟩, ot, ⟨hot, rfl⟩, rfl⟩
    exact ⟨⟨hit, hot⟩, rfl⟩
  · rintro ⟨⟨hit, hot⟩, rfl⟩
    exact ⟨_, ⟨hit, rfl⟩, _, ⟨hot, rfl⟩, rfl⟩

/-- The groups of the rows in scope. -/
def tracesInScope (rows : List EventRow) (project : Option String) (since : Option Time) :
    List (String × List EventRow) :=
  Group.groupsBy EventRow.traceKey (rows.filter (inScope project since))

/-- `HAVING`, without the cursor. -/
def TraceFilter.having (f : TraceFilter) (G : TraceGroup) : Bool :=
  f.until_.all (fun t => decide (G.ended < fmtTs t)) &&
    (if f.status = some "error" then decide (0 < G.errs)
      else if f.status = some "success" then G.errs == 0
      else true) &&
    f.minCost.all (fun c => decide (c ≤ G.cost))

/-- The text `(ended, trace_id)` that traces are ordered on. -/
def traceGroupKey (G : TraceGroup) : String ×ₗ String := toLex (G.ended, G.traceId)

/-! ## Reading a row -/

/-- `TraceSummaryRaw`. -/
structure TraceSummaryRaw where
  traceId : String
  projectId : String
  started : String
  ended : String
  finishMs : Int
  spans : ℕ
  costUsd : ℚ
  inputTokens : Int
  outputTokens : Int
  errors : ℕ

/-- `map_trace_summary`. -/
def mapTraceSummary (G : TraceGroup) : Except TraceError TraceSummaryRaw := do
  let finishMs ← G.finishMs.getI64.mapError fun e => .store (.sqlite e)
  return {
    traceId := G.traceId
    projectId := G.projectId
    started := G.started
    ended := G.ended
    finishMs
    spans := G.spans
    costUsd := G.cost
    inputTokens := G.it
    outputTokens := G.ot
    errors := G.errs }

/-- `parse_ts`, with its error. -/
def parseTsOrError (text : String) : Except TraceError Time :=
  match parseTs text with
  | some t => .ok t
  | none => .error (.store (.other ("bad ts \"" ++ text ++ "\": input contains invalid characters")))

/-- `trace_summary_from_raw`. -/
def traceSummaryFromRaw (checks : Bool) (r : TraceSummaryRaw) : Except TraceError TraceSummary := do
  let startedAt ← parseTsOrError r.started
  let endedAt ← parseTsOrError r.ended
  let lastFinish := (Time.ofMillis r.finishMs).getD endedAt
  let shape : TraceShape := { startedAt, lastFinish, errors := r.errors }
  let totalTokens ← (addI64 checks r.inputTokens r.outputTokens).mapError .panic
  return {
    traceId := r.traceId
    projectId := r.projectId
    startedAt
    endedAt
    durationMs := shape.durationMs
    spans := r.spans
    costUsd := r.costUsd
    inputTokens := EventRow.asU64 r.inputTokens
    outputTokens := EventRow.asU64 r.outputTokens
    totalTokens := EventRow.asU64 totalTokens
    errors := r.errors
    status := shape.status
    models := [] }

/-- A row of the aggregate, read. -/
def readSummary (checks : Bool) (G : TraceGroup) : Except TraceError TraceSummary :=
  mapTraceSummary G >>= traceSummaryFromRaw checks

/-- The finish of every row is below `2 ^ 63`, and that of some row is an `i64`. -/
def FinishFits (rows : List EventRow) : Prop :=
  (∀ r ∈ rows, ∀ n, r.finishMs = some n → n < i64Bound) ∧
    ∃ r ∈ rows, ∃ n, r.finishMs = some n ∧ -i64Bound ≤ n

/-- The conditions under which the row of a group can be read. -/
structure GroupReadable (checks : Bool) (rows : List EventRow) : Prop where
  years : ∀ r ∈ rows, FourDigitYear r.ts
  finish : FinishFits rows
  total : checks = true →
    InI64 ((rows.map EventRow.inputTokens).sum + (rows.map EventRow.outputTokens).sum)

theorem maxFinishMs_eq_integer_iff {rows : List EventRow} {n : Int} :
    maxFinishMs rows = .integer n ↔
      FinishFits rows ∧ (rows.filterMap EventRow.finishMs).max? = some n := by
  unfold maxFinishMs FinishFits
  cases hmax : (rows.filterMap EventRow.finishMs).max? with
  | none => simp
  | some m =>
    rcases List.max?_eq_some_iff.1 hmax with ⟨hmem, hge⟩
    rcases List.mem_filterMap.1 hmem with ⟨r, hr, hfinish⟩
    have hall : ∀ r' ∈ rows, ∀ n', r'.finishMs = some n' → n' ≤ m := by
      intro r' hr' n' hn'
      exact hge n' (List.mem_filterMap.2 ⟨r', hr', hn'⟩)
    by_cases hfit : InI64 m
    · simp only [if_pos hfit, SqlValue.integer.injEq, Option.some.injEq]
      constructor
      · intro heq
        refine ⟨⟨?_, r, hr, m, hfinish, hfit.1⟩, heq⟩
        intro r' hr' n' hn'
        exact lt_of_le_of_lt (hall r' hr' n' hn') hfit.2
      · intro h
        exact h.2
    · simp only [if_neg hfit, reduceCtorEq, false_iff, not_and]
      rintro ⟨hlt, r', hr', n', hn', hge'⟩
      exact absurd ⟨hge'.trans (hall r' hr' n' hn'), hlt r hr m hfinish⟩ hfit

/-- The first text of a group is that of a row. -/
theorem exists_started {rows : List EventRow} (h : rows ≠ []) :
    ∃ r ∈ rows, (rows.map fun r => fmtTs r.ts).min?.getD "" = fmtTs r.ts ∧
      ∀ r' ∈ rows, fmtTs r.ts ≤ fmtTs r'.ts := by
  cases hmin : (rows.map fun r => fmtTs r.ts).min? with
  | none => simp [h] at hmin
  | some text =>
    rcases List.min?_eq_some_iff.1 hmin with ⟨hmem, hle⟩
    rcases List.mem_map.1 hmem with ⟨r, hr, rfl⟩
    refine ⟨r, hr, rfl, ?_⟩
    intro r' hr'
    exact hle _ (List.mem_map_of_mem hr')

/-- The last text of a group is that of a row. -/
theorem exists_ended {rows : List EventRow} (h : rows ≠ []) :
    ∃ r ∈ rows, (rows.map fun r => fmtTs r.ts).max?.getD "" = fmtTs r.ts ∧
      ∀ r' ∈ rows, fmtTs r'.ts ≤ fmtTs r.ts := by
  cases hmax : (rows.map fun r => fmtTs r.ts).max? with
  | none => simp [h] at hmax
  | some text =>
    rcases List.max?_eq_some_iff.1 hmax with ⟨hmem, hle⟩
    rcases List.mem_map.1 hmem with ⟨r, hr, rfl⟩
    refine ⟨r, hr, rfl, ?_⟩
    intro r' hr'
    exact hle _ (List.mem_map_of_mem hr')

theorem parseTsOrError_eq_ok_iff {t t' : Time} :
    parseTsOrError (fmtTs t) = .ok t' ↔ FourDigitYear t ∧ t' = t := by
  unfold parseTsOrError
  rw [parseTs_fmtTs]
  by_cases h : FourDigitYear t
  · simp [h, eq_comm]
  · simp [h]

/-- The first text of a group reads back exactly when every year has four digits, and as the first
start. -/
theorem parse_started {rows : List EventRow} (h : rows ≠ []) {t : Time} :
    parseTsOrError ((rows.map fun r => fmtTs r.ts).min?.getD "") = .ok t ↔
      (∀ r ∈ rows, FourDigitYear r.ts) ∧ t = (rows.map EventRow.ts).min?.getD 0 := by
  rcases exists_started h with ⟨r, hr, htext, hle⟩
  rw [htext, parseTsOrError_eq_ok_iff]
  have hmin : (∀ r' ∈ rows, FourDigitYear r'.ts) → (rows.map EventRow.ts).min? = some r.ts := by
    intro hyears
    rw [List.min?_eq_some_iff]
    refine ⟨List.mem_map_of_mem hr, ?_⟩
    intro t' ht'
    rcases List.mem_map.1 ht' with ⟨r', hr', rfl⟩
    exact (fmtTs_le_iff (hyears r hr) (hyears r' hr')).1 (hle r' hr')
  constructor
  · rintro ⟨hyear, rfl⟩
    -- a year with a sign would be before it
    have hyears : ∀ r' ∈ rows, FourDigitYear r'.ts := by
      intro r' hr'
      by_contra hsign
      exact absurd (hle r' hr') (not_le.2 (fmtTs_lt_of_sign hsign hyear))
    exact ⟨hyears, by rw [hmin hyears, Option.getD_some]⟩
  · rintro ⟨hyears, rfl⟩
    exact ⟨hyears r hr, by rw [hmin hyears, Option.getD_some]⟩

/-- The last text reads back as the last start. -/
theorem parse_ended {rows : List EventRow} (h : rows ≠ [])
    (hyears : ∀ r ∈ rows, FourDigitYear r.ts) {t : Time} :
    parseTsOrError ((rows.map fun r => fmtTs r.ts).max?.getD "") = .ok t ↔
      t = (rows.map EventRow.ts).max?.getD 0 := by
  rcases exists_ended h with ⟨r, hr, htext, hle⟩
  have hmax : (rows.map EventRow.ts).max? = some r.ts := by
    rw [List.max?_eq_some_iff]
    refine ⟨List.mem_map_of_mem hr, ?_⟩
    intro t' ht'
    rcases List.mem_map.1 ht' with ⟨r', hr', rfl⟩
    exact (fmtTs_le_iff (hyears r' hr') (hyears r hr)).1 (hle r' hr')
  rw [htext, parseTsOrError_eq_ok_iff, hmax, Option.getD_some]
  exact and_iff_right (hyears r hr)

/-- The summary of a group that can be read. -/
def groupSummary (g : String × List EventRow) : TraceSummary :=
  let startedAt := (g.2.map EventRow.ts).min?.getD 0
  let endedAt := (g.2.map EventRow.ts).max?.getD 0
  let finishMs := (g.2.filterMap EventRow.finishMs).max?.getD 0
  let inputTokens := (g.2.map EventRow.inputTokens).sum
  let outputTokens := (g.2.map EventRow.outputTokens).sum
  let errors := g.2.countP fun r => r.status != .success
  let shape : TraceShape :=
    { startedAt, lastFinish := (Time.ofMillis finishMs).getD endedAt, errors }
  { traceId := g.1
    projectId := (g.2.map EventRow.projectId).min?.getD ""
    startedAt
    endedAt
    durationMs := shape.durationMs
    spans := g.2.length
    costUsd := (g.2.map fun r => r.costUsd.getD 0).sum
    inputTokens := EventRow.asU64 inputTokens
    outputTokens := EventRow.asU64 outputTokens
    totalTokens := EventRow.asU64 (wrapI64 (inputTokens + outputTokens))
    errors
    status := shape.status
    models := [] }

/-- **When the row of a group can be read**, and as what. -/
theorem readSummary_exactGroup_iff {checks : Bool} {g : String × List EventRow} (h : g.2 ≠ [])
    {s : TraceSummary} :
    readSummary checks (exactGroup g) = .ok s ↔ GroupReadable checks g.2 ∧ s = groupSummary g := by
  unfold readSummary mapTraceSummary traceSummaryFromRaw
  simp only [Traverse.bind_eq_ok_iff, Traverse.mapError_eq_ok_iff, pure, Except.pure,
    Except.ok.injEq]
  have hget : ∀ {v : SqlValue} {n : Int}, v.getI64 = .ok n ↔ v = .integer n := by
    intro v n
    cases v <;> simp [SqlValue.getI64]
  constructor
  · rintro ⟨_, ⟨n, hn, rfl⟩, started, hstarted, ended, hended, total, htotal, rfl⟩
    rcases maxFinishMs_eq_integer_iff.1 (hget.1 hn) with ⟨hfinish, hmax⟩
    rcases (parse_started h).1 hstarted with ⟨hyears, rfl⟩
    rcases (parse_ended h hyears).1 hended with rfl
    rcases addI64_eq_ok_iff.1 htotal with ⟨hfit, rfl⟩
    refine ⟨⟨hyears, hfinish, hfit⟩, ?_⟩
    unfold groupSummary
    rw [hmax]
    rfl
  · rintro ⟨hread, rfl⟩
    rcases hread.finish.2 with ⟨r, hr, m, hm, -⟩
    obtain ⟨n, hmax⟩ : ∃ n, (g.2.filterMap EventRow.finishMs).max? = some n := by
      cases hmax : (g.2.filterMap EventRow.finishMs).max? with
      | some n => exact ⟨n, rfl⟩
      | none =>
        rw [List.max?_eq_none_iff] at hmax
        exact absurd (List.mem_filterMap.2 ⟨r, hr, hm⟩) (by rw [hmax]; exact List.not_mem_nil)
    refine ⟨_, ⟨n, hget.2 (maxFinishMs_eq_integer_iff.2 ⟨hread.finish, hmax⟩), rfl⟩, _,
      (parse_started h).2 ⟨hread.years, rfl⟩, _, (parse_ended h hread.years).2 rfl, _,
      addI64_eq_ok_iff.2 ⟨hread.total, rfl⟩, ?_⟩
    unfold groupSummary
    rw [hmax]
    rfl

/-! ## Models -/

/-- The subquery of `attach_models`: the models of one trace, each with its first timestamp, in the
order of the grouping. -/
def modelsFirstSeen (rows : List EventRow) (project : Option String) (traceId : String) :
    List (String × String) :=
  let mine := rows.filter fun r =>
    r.traceId == some traceId && project.all (fun p => r.projectId == p)
  ((Group.groupsBy EventRow.model mine).mergeSort fun g h => decide (g.1 ≤ h.1)).map fun g =>
    (g.1, (g.2.map fun r => fmtTs r.ts).min?.getD "")

/-- The distinct models of a trace, in first-seen order. -/
def traceModels (rows : List EventRow) (project : Option String) (traceId : String) :
    List String :=
  ((modelsFirstSeen rows project traceId).mergeSort fun m n => decide (m.2 ≤ n.2)).map Prod.fst

/-- `attach_models`, of one summary. -/
def withModels (rows : List EventRow) (project : Option String) (s : TraceSummary) : TraceSummary :=
  { s with models := traceModels rows project s.traceId }

end LightTrack
