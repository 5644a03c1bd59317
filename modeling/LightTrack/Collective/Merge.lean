import LightTrack.Collective.Entry
import LightTrack.Core.Clock
import LightTrack.Store.Codec
import Mathlib.Data.Finset.Option
import Mathlib.Data.Finset.Sort
import Mathlib.Data.Rat.Floor

/-! # The leaderboard merge

`mergeLeaderboard` buckets the entries by `(provider, model, task_type)`, weighs the sources of each
bucket by their cases with the greatest cut down to `MAX_SOURCE_WEIGHT_SHARE`, folds them into an
accumulator and makes one row of each.

Figures are exact; `sqrt` stands for the square root.  Counters are fixed-width: `checks` says whether
an addition that overflows stops with a panic or wraps.
-/

namespace LightTrack

/-! ## Rounding -/

/-- `r3` -/
def r3 (x : ℚ) : ℚ := roundAway (x * 1000) / 1000

/-- `r6` -/
def r6 (x : ℚ) : ℚ := roundAway (x * 1000000) / 1000000

/-! ## Weights -/

/-- `MAX_SOURCE_WEIGHT_SHARE` -/
def MAX_SOURCE_WEIGHT_SHARE : ℚ := 8 / 10

/-- `Iterator::max_by` over the elements with their positions: the last of the greatest. -/
def maxBy : List (ℚ × ℕ) → Option (ℚ × ℕ)
  | [] => none
  | x :: l => some (l.foldl (fun m y => if m.1 ≤ y.1 then y else m) x)

/-- `winsorized_weights` -/
def winsorizedWeights (cases : List ℚ) : List ℚ :=
  if cases.length < 2 then cases
  else
    match maxBy cases.zipIdx with
    | none => cases
    | some (top, i) =>
      let others := cases.sum - top
      let ceiling := others * MAX_SOURCE_WEIGHT_SHARE / (1 - MAX_SOURCE_WEIGHT_SHARE)
      if ceiling < top then cases.set i ceiling else cases

/-! ## Disagreement between the sources -/

/-- `Between` -/
structure Between where
  tau2 : Option ℚ
  sumP2 : ℚ

namespace Between

/-- `Between::se2` -/
def se2 (b : Between) : ℚ := b.tau2.getD 0 * b.sumP2

/-- `Between::spread` -/
def spread (sqrt : ℚ → ℚ) (b : Between) : Option ℚ := b.tau2.map sqrt

end Between

/-- `between_sources` -/
def betweenSources (weights qualities : List ℚ) : Between :=
  let k := min weights.length qualities.length
  let total := (weights.take k).sum
  if k = 0 ∨ total ≤ 0 then ⟨none, 0⟩
  else
    let p := (weights.take k).map fun w => w / total
    let sumP2 := (p.map fun x => x * x).sum
    if k < 2 then ⟨none, sumP2⟩
    else
      let mean : ℚ := ((p.zip qualities).map fun pq => pq.1 * pq.2).sum
      let raw : ℚ := ((p.zip qualities).map fun pq => pq.1 * (pq.2 - mean) ^ 2).sum
      let corrected := raw * k / (k - 1)
      ⟨some (max corrected 0), sumP2⟩

/-! ## The accumulator -/

/-- `Sample` -/
structure Sample where
  weight : ℚ
  quality : ℚ
  passRate : ℚ
  cost : ℚ
  cases : UInt32
  p50 : Option ℕ
  p95 : Option ℕ
  runs : UInt32
  variance : Option ℚ
  judgeProvider : Option String
  rubricFingerprint : Option String
  determinism : Option String
  frozen : Coverage
  tested : Coverage
  datasetVersion : Option UInt32

/-- `Acc` -/
@[ext]
structure Acc where
  cases : UInt64
  w : ℚ
  qW : ℚ
  qW2 : ℚ
  pW : ℚ
  cW : ℚ
  latWTotal : ℚ
  latW : ℚ
  p95Max : ℕ
  runs : UInt32
  varW : ℚ
  varWeight : ℚ
  varCases : UInt64
  contributors : Finset String
  judgeProviders : Finset String
  rubricFps : Finset String
  seen : Bool
  determinism : Option String
  determinismLevels : Finset String
  frozen : Coverage
  tested : Coverage
  datasetVersions : Finset UInt32

/-- What an optional value adds to a sum. -/
def amount {α : Type*} (v : Option α) (f : α → ℚ) : ℚ := (v.map f).getD 0

/-- A set with an optional member added. -/
def insertSome {α : Type*} [DecidableEq α] (v : Option α) (s : Finset α) : Finset α :=
  v.toFinset ∪ s

/-- A tag that is not empty. -/
def nonEmpty (tag : Option String) : Option String := tag.filter fun t => !t.isEmpty

namespace Acc

/-- `Acc::default` -/
def default : Acc :=
  { cases := 0, w := 0, qW := 0, qW2 := 0, pW := 0, cW := 0, latWTotal := 0, latW := 0
    p95Max := 0, runs := 0, varW := 0, varWeight := 0, varCases := 0
    contributors := ∅, judgeProviders := ∅, rubricFps := ∅, seen := false
    determinism := none, determinismLevels := ∅, frozen := .unknown, tested := .unknown
    datasetVersions := ∅ }

/-- `var_cases` after a sample. -/
def addVarCases (checks : Bool) (a : Acc) (s : Sample) : Except Overflow UInt64 :=
  if s.variance.isSome then addU64 checks a.varCases s.cases.toUInt64 else .ok a.varCases

/-- The three counters after a sample. -/
def addCounts (checks : Bool) (a : Acc) (s : Sample) :
    Except Overflow (UInt64 × UInt32 × UInt64) := do
  let cases ← addU64 checks a.cases s.cases.toUInt64
  let runs ← addU32 checks a.runs s.runs
  let varCases ← a.addVarCases checks s
  pure (cases, runs, varCases)

/-- The accumulator after a sample, given its counters. -/
def added (a : Acc) (s : Sample) (contributor : Option String)
    (counts : UInt64 × UInt32 × UInt64) : Acc :=
  { cases := counts.1
    w := a.w + s.weight
    qW := a.qW + s.quality * s.weight
    qW2 := a.qW2 + s.quality * s.quality * s.weight
    pW := a.pW + s.passRate * s.weight
    cW := a.cW + s.cost * s.weight
    latWTotal := a.latWTotal + amount s.p50 fun _ => s.weight
    latW := a.latW + amount s.p50 fun p => p * s.weight
    p95Max := max a.p95Max (s.p95.getD 0)
    runs := counts.2.1
    varW := a.varW + amount s.variance fun v => v * s.weight
    varWeight := a.varWeight + amount s.variance fun _ => s.weight
    varCases := counts.2.2
    contributors := insertSome contributor a.contributors
    judgeProviders := insertSome (nonEmpty s.judgeProvider) a.judgeProviders
    rubricFps := insertSome (nonEmpty s.rubricFingerprint) a.rubricFps
    seen := true
    -- the first sample seeds, every later one can only weaken
    determinism :=
      if a.seen then weakestDeterminism a.determinism s.determinism else s.determinism
    determinismLevels := insertSome s.determinism a.determinismLevels
    frozen := if a.seen then a.frozen.fold s.frozen else s.frozen
    tested := if a.seen then a.tested.fold s.tested else s.tested
    datasetVersions := insertSome s.datasetVersion a.datasetVersions }

/-- `Acc::add` -/
def add (checks : Bool) (a : Acc) (s : Sample) (contributor : Option String) :
    Except Overflow Acc := do
  let counts ← a.addCounts checks s
  pure (a.added s contributor counts)

/-- `Acc::quality` -/
def quality (a : Acc) : ℚ := if a.w ≤ 0 then 0 else a.qW / a.w

/-- `Acc::pass_rate` -/
def passRate (a : Acc) : ℚ := if a.w ≤ 0 then 0 else a.pW / a.w

/-- `Acc::cost` -/
def cost (a : Acc) : ℚ := if a.w ≤ 0 then 0 else a.cW / a.w

/-- `Acc::p50` -/
def p50 (a : Acc) : Option ℕ :=
  if 0 < a.latWTotal then some (roundAway (a.latW / a.latWTotal)).toNat else none

/-- `Acc::p95` -/
def p95 (a : Acc) : Option ℕ := if 0 < a.p95Max then some a.p95Max else none

/-- `VARIANCE_COVERAGE_MIN` -/
def VARIANCE_COVERAGE_MIN : ℚ := 5 / 10

/-- `Z_95` -/
def Z_95 : ℚ := 196 / 100

/-- `Acc::quality_ci95` -/
def qualityCi95 (sqrt : ℚ → ℚ) (a : Acc) (between : Between) : Option ℚ :=
  if a.varCases = 0 ∨ a.cases = 0 then none
  else if (a.varCases.toNat : ℚ) / a.cases.toNat < VARIANCE_COVERAGE_MIN then none
  else
    let pooledVar := max (a.varW / a.varWeight) 0
    let se2Within := pooledVar / a.varCases.toNat
    some (Z_95 * sqrt (se2Within + between.se2))

end Acc

/-! ## Provenance -/

/-- `day_stamp`: the start of the UTC day. -/
def dayStamp (t : Time) : String := fmtTs (t - t % (86400 * Time.second))

/-- `evidence_window`: the oldest and the newest day. -/
def evidenceWindow (received : List Time) : Option (String × String) := do
  let oldest ← received.min?
  let newest ← received.max?
  pure (dayStamp oldest, dayStamp newest)

/-- How many families a set of tags stands for: `mixed` stands for two. -/
def families (tags : Finset String) : ℕ := tags.card + (tags.filter fun t => t = "mixed").card

/-- `mixed_judges_of` -/
def mixedJudgesOf (judgeProviders : Finset String) : Option UInt32 :=
  if 1 < families judgeProviders then some (.ofNat (families judgeProviders)) else none

/-- `rubric_agreement` -/
def rubricAgreement (fps : Finset String) : Option UInt32 × Option UInt32 :=
  if fps = ∅ then (none, none)
  else (some (.ofNat (families fps)), mixedJudgesOf fps)

/-! ## Rows -/

/-- `RowRigor` -/
structure RowRigor where
  determinism : Option String
  determinismLevels : List String
  frozenDataset : Coverage
  significanceTested : Coverage
  deriving DecidableEq

/-- `RowRigor::is_mixed` -/
def RowRigor.isMixed (r : RowRigor) : Bool :=
  1 < r.determinismLevels.length || r.frozenDataset == .mixed || r.significanceTested == .mixed

/-- `sort_levels` -/
def sortLevels (levels : List String) : List String :=
  levels.mergeSort fun a b => decide (rank b < rank a ∨ rank b = rank a ∧ a ≤ b)

/-- `Acc::row_rigor` -/
def Acc.rowRigor (a : Acc) : RowRigor :=
  { determinism := a.determinism
    determinismLevels := sortLevels a.determinismLevels.sort
    frozenDataset := a.frozen
    significanceTested := a.tested }

/-- `collapse`: several tags become `mixed`. -/
def collapse (tags : Finset String) : Option String :=
  match tags.sort with
  | [] => none
  | [t] => some t
  | _ => some "mixed"

/-- `LeaderboardRow` -/
structure LeaderboardRow where
  provider : String
  model : String
  taskType : String
  quality : ℚ
  qualityCi95 : Option ℚ
  sourceSpread : Option ℚ
  passRate : ℚ
  avgCostUsd : ℚ
  p50LatencyMs : Option ℕ
  p95LatencyMs : Option ℕ
  lowConfidence : Bool
  judgeProviders : List String
  mixedJudges : Option UInt32
  nContributors : UInt32
  nRuns : UInt32
  nCases : UInt32
  maxSourceShare : ℚ
  rigor : RowRigor
  mixedRigor : Bool
  nRubrics : Option UInt32
  mixedRubrics : Option UInt32
  newestAt : Option String
  oldestAt : Option String
  deriving DecidableEq

/-- The bucket a row was made of. -/
def LeaderboardRow.key (r : LeaderboardRow) : Key := keyOf r.provider r.model r.taskType

/-- One merged bucket. -/
structure MergeGroup where
  acc : Acc
  maxSourceShare : ℚ
  between : Between
  window : Option (String × String)

/-- The sample an entry contributes under a weight. -/
def CollectiveEntry.sample (e : CollectiveEntry) (weight : ℚ) : Sample :=
  { weight := weight, quality := e.quality, passRate := e.passRate, cost := e.avgCostUsd
    cases := e.nCases, p50 := e.p50LatencyMs, p95 := e.p95LatencyMs, runs := e.nRuns
    variance := e.qualityVariance, judgeProvider := e.judgeProvider
    rubricFingerprint := e.rubricFingerprint, determinism := e.determinism
    frozen := e.frozenDataset, tested := e.significanceTested, datasetVersion := none }

/-- The weights of the sources of a bucket. -/
def weightsOf (es : List CollectiveEntry) : List ℚ :=
  winsorizedWeights (es.map CollectiveEntry.cases)

/-- The samples of a bucket, folded. -/
def foldSamples (checks : Bool) (ews : List (CollectiveEntry × ℚ)) : Except Overflow Acc :=
  ews.foldlM (fun a ew => a.add checks (ew.1.sample ew.2) (some ew.1.contributorId)) Acc.default

/-- The merge of one bucket. -/
def mergeBucket (checks : Bool) (es : List CollectiveEntry) : Except Overflow MergeGroup := do
  let weights := weightsOf es
  let total := weights.sum
  let top := weights.foldl max 0
  let maxShare := if 0 < total then top / total else 0
  let between := betweenSources weights (es.map CollectiveEntry.quality)
  let acc ← foldSamples checks (es.zip weights)
  let window := evidenceWindow (es.map CollectiveEntry.receivedAt)
  pure ⟨acc, maxShare, between, window⟩

/-- The keys of the `BTreeMap` of buckets, in its order. -/
def bucketKeys (entries : List CollectiveEntry) : List Key :=
  (entries.map CollectiveEntry.key).toFinset.sort

/-- The entries of one bucket, in the order they came. -/
def bucket (entries : List CollectiveEntry) (k : Key) : List CollectiveEntry :=
  entries.filter fun e => e.key = k

section

variable (sqrt : ℚ → ℚ) (checks : Bool) (lowConfidenceFloor : UInt32)

/-- The row of a merged bucket. -/
def rowOf (k : Key) (g : MergeGroup) : LeaderboardRow :=
  let a := g.acc
  let rigor := a.rowRigor
  let rubrics := rubricAgreement a.rubricFps
  { provider := (ofLex k).1
    model := (ofLex (ofLex k).2).1
    taskType := (ofLex (ofLex k).2).2
    quality := r3 a.quality
    qualityCi95 := (a.qualityCi95 sqrt g.between).map r3
    sourceSpread := (g.between.spread sqrt).map r3
    passRate := r3 a.passRate
    avgCostUsd := r6 a.cost
    p50LatencyMs := a.p50
    p95LatencyMs := a.p95
    lowConfidence := a.cases < lowConfidenceFloor.toUInt64
    judgeProviders := a.judgeProviders.sort
    mixedJudges := mixedJudgesOf a.judgeProviders
    nContributors := .ofNat a.contributors.card
    nRuns := a.runs
    -- `a.cases as u32`
    nCases := a.cases.toUInt32
    maxSourceShare := r3 g.maxSourceShare
    rigor := rigor
    mixedRigor := rigor.isMixed
    nRubrics := rubrics.1
    mixedRubrics := rubrics.2
    newestAt := g.window.map Prod.snd
    oldestAt := g.window.map Prod.fst }

/-- `sort_by_quality` -/
def sortByQuality (rows : List LeaderboardRow) : List LeaderboardRow :=
  rows.mergeSort fun a b => decide (b.quality < a.quality ∨ b.quality = a.quality ∧
    (a.provider < b.provider ∨ a.provider = b.provider ∧ a.model ≤ b.model))

/-- The row of one bucket of the entries. -/
def rowAt (entries : List CollectiveEntry) (k : Key) : Except Overflow LeaderboardRow := do
  let g ← mergeBucket checks (bucket entries k)
  pure (rowOf sqrt lowConfidenceFloor k g)

/-- `merge_leaderboard` -/
def mergeLeaderboard (entries : List CollectiveEntry) : Except Overflow (List LeaderboardRow) := do
  let rows ← (bucketKeys entries).mapM (rowAt sqrt checks lowConfidenceFloor entries)
  pure (sortByQuality rows)

end

end LightTrack
