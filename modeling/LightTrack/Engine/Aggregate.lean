import LightTrack.Engine.Sample
import LightTrack.Lib.Share

/-! # Aggregating samples

The samples of a case and its locally scored dimensions become one outcome: a mean for each
dimension, the weighted overall, the floor-gated pass and the agreement between samples.

* `aggregate` : the fold over the samples and what is made of it,
* `measured` : what a dimension's score is meant to be, none where nothing measured it,
* `aggregate_error_iff`, `aggregate_ok` : when there is an outcome, and what it says.

`foldl_marks` is what every statement about samples rests on: scores come from the samples that
parsed, and from nothing else.
-/

namespace LightTrack.Engine

/-! ## Definitions -/

/-- `weighted`: the weighted mean of scores under the weights the rubric has for their keys. -/
def weighted (dims : List (String × Score)) (rubric : Rubric) : ℚ :=
  let w := fun key : String =>
    ((rubric.dimensions.find? fun d => decide (d.key = key)).map RubricDimension.weight).getD 1
  let num := (dims.map fun p => p.2.val * w p.1).sum
  let den := (dims.map fun p => w p.1).sum
  if 0 < den then num / den else 0

/-- `entry(key).or_default().push(x)` -/
def push {α : Type*} (m : String → List α) (key : String) (x : α) : String → List α :=
  fun k => if k = key then m k ++ [x] else m k

/-- What `aggregate` collects of the samples that parsed. -/
structure Marks where
  perDim : String → List Score := fun _ => []
  reasonings : String → List String := fun _ => []
  overalls : List ℚ := []
  parsed : ℕ := 0

namespace Marks

/-- One dimension of a sample. -/
def addDim (m : Marks) (p : String × Score × String) : Marks :=
  { m with
    perDim := push m.perDim p.1 p.2.1
    reasonings := if p.2.2 = "" then m.reasonings else push m.reasonings p.1 p.2.2 }

/-- A sample that parsed. One that scored nothing has no overall to disagree about. -/
def add (rubric : Rubric) (m : Marks) (dims : SampleDims) : Marks :=
  let m := dims.foldl addDim { m with parsed := m.parsed + 1 }
  if dims = [] then m
  else { m with overalls := m.overalls ++ [weighted (dims.map fun p => (p.1, p.2.1)) rubric] }

end Marks

/-- What `aggregate` accounts for every sample. -/
structure Account where
  totalCost : ℚ := 0
  anyCost : Bool := false
  maxLatency : ℕ := 0
  inTok : ℕ := 0
  outTok : ℕ := 0
  modelUsed : String
  parseFailures : ℕ := 0
  firstRawFailure : Option String := none

/-- A sample's accounting: a dropped one burnt its tokens all the same. -/
def Account.add {τ : Type*} (a : Account) (r : Parsed τ) : Account :=
  { totalCost := a.totalCost + r.costUsd.getD 0
    anyCost := a.anyCost || r.costUsd.isSome
    maxLatency := max a.maxLatency r.latencyMs
    inTok := a.inTok + r.inputTokens
    outTok := a.outTok + r.outputTokens
    modelUsed := if r.model = "" then a.modelUsed else r.model
    parseFailures := if r.value.isSome then a.parseFailures else a.parseFailures + 1
    firstRawFailure := if r.value.isSome then a.firstRawFailure
      else a.firstRawFailure.or r.rawFailure }

/-- One sample into the collections. -/
def Marks.sample (rubric : Rubric) (m : Marks) (r : Parsed SampleDims) : Marks :=
  match r.value with
  | some dims => m.add rubric dims
  | none => m

/-- `DimScore` -/
structure DimScore where
  key : String
  score : ℚ
  reasonings : List String
  weight : ℚ
  floor : Option ℚ
  floorHit : Bool
  voided : Bool

/-- A dimension's mean, and whether it is voided: scored locally, over the samples that parsed, or
not at all. -/
def meanOf (m : Marks) (det : List DetScore) (d : RubricDimension) : ℚ × Bool :=
  match det.find? fun s => decide (s.key = d.key) with
  | some s => match s.score with
    | some x => (x.val, false)
    | none => (0, true)
  | none =>
    let v := (m.perDim d.key).map Subtype.val
    if v = [] then (0, d.kind.isGrounding) else (v.sum / v.length, false)

/-- The reported dimension. -/
def dimScore (m : Marks) (det : List DetScore) (d : RubricDimension) : DimScore :=
  let mean := (meanOf m det d).1
  let voided := (meanOf m det d).2
  { key := d.key
    score := mean
    reasonings := match det.find? fun s => decide (s.key = d.key) with
      | some s => [s.reasoning]
      | none => m.reasonings d.key
    weight := d.weight
    floor := d.floor
    floorHit := !voided && d.floor.any fun f => decide (mean < f)
    voided := voided }

/-- The weighted overall of reported dimensions: a voided one leaves both sums. -/
def overallOf (dimensions : List DimScore) : ℚ :=
  let kept := dimensions.filter fun d => !d.voided
  let den := (kept.map DimScore.weight).sum
  if 0 < den then (kept.map fun d => d.score * d.weight).sum / den else 0

/-- The gate: the threshold, and no floor hit. -/
def passOf (threshold : ℚ) (dimensions : List DimScore) : Bool :=
  decide (threshold ≤ overallOf dimensions) && dimensions.all fun d => !d.floorHit

/-- How close the samples' overalls are; a lone one agrees with itself. -/
def agreementOf (overalls : List ℚ) : ℚ :=
  if 1 < overalls.length then
    (Score.clamp (1 - (overalls.max?.getD 0 - overalls.min?.getD 0))).val
  else 1

/-- `RubricOutcome` -/
structure RubricOutcome where
  batchSize : Option ℕ := none
  dimensions : List DimScore
  overall : ℚ
  pass : Bool
  costUsd : Option ℚ
  latencyMs : Option ℕ
  tokens : Option ℕ
  inputTokens : Option ℕ
  outputTokens : Option ℕ
  model : String
  samples : ℕ
  samplesParsed : ℕ
  agreement : ℚ
  parseFailures : ℕ
  injectionSuspected : Bool := false
  determinism : Determinism := .bestEffort

/-- The refusal of samples of which none parsed. -/
def noParseableSample : Option String → EngineError
  | some raw => .parse ("no parseable rubric judge sample; last raw output: " ++ raw)
  | none => .parse "rubric judge produced no parseable samples"

/-- The refusal of a case every dimension of which was voided. -/
def everyDimensionVoided (rubric : Rubric) : EngineError :=
  let why := rubric.dimensions.map fun d =>
    if d.kind.isGrounding then "'" ++ d.key ++ "': the output yielded zero claims"
    else "'" ++ d.key ++ "': the sandbox was unavailable"
  .other ("every rubric dimension was voided, so this case has no verdict (" ++
    "; ".intercalate why ++ ")")

/-- `aggregate` -/
def aggregate (results : List (Parsed SampleDims)) (rubric : Rubric) (model : String) (k : ℕ)
    (det : List DetScore) : Except EngineError RubricOutcome :=
  let m := results.foldl (Marks.sample rubric) {}
  let a := results.foldl Account.add
    { modelUsed := if k = 0 then "deterministic" else model }
  if 0 < k ∧ m.parsed = 0 then .error (noParseableSample a.firstRawFailure)
  else
    let dimensions := rubric.dimensions.map (dimScore m det)
    if dimensions ≠ [] ∧ dimensions.all DimScore.voided then .error (everyDimensionVoided rubric)
    else .ok
      { dimensions := dimensions
        overall := overallOf dimensions
        pass := passOf rubric.threshold dimensions
        costUsd := if a.anyCost then some a.totalCost else none
        latencyMs := some a.maxLatency
        tokens := some (a.inTok + a.outTok)
        inputTokens := some a.inTok
        outputTokens := some a.outTok
        model := a.modelUsed
        samples := k
        samplesParsed := m.parsed
        agreement := agreementOf m.overalls
        parseFailures := a.parseFailures }

/-! ## What a dimension measures -/

/-- The scores of a key over samples, in their order. -/
def scoresOf (values : List SampleDims) (key : String) : List ℚ :=
  values.flatten.filterMap fun p => if p.1 = key then some p.2.1.val else none

/-- What a dimension measured: its local score, the mean of its scores over the samples, zero for
one no sample scored, and nothing for a voided one. -/
def measured (values : List SampleDims) (det : List DetScore) (d : RubricDimension) : Option ℚ :=
  match det.find? fun s => decide (s.key = d.key) with
  | some s => s.score.map Subtype.val
  | none =>
    if scoresOf values d.key = [] then if d.kind.isGrounding then none else some 0
    else some ((scoresOf values d.key).sum / (scoresOf values d.key).length)

/-- Weight and value of the dimensions that measured something. -/
def weighing (values : List SampleDims) (det : List DetScore) (rubric : Rubric) : List (ℚ × ℚ) :=
  rubric.dimensions.filterMap fun d => (measured values det d).map fun x => (d.weight, x)

/-- The values of the samples that parsed. -/
def parsedValues {τ : Type*} (results : List (Parsed τ)) : List τ := results.filterMap Parsed.value

/-! ## What the samples leave -/

section Marks

variable {rubric : Rubric}

/-- A sample that did not parse leaves no mark. -/
theorem foldl_marks (results : List (Parsed SampleDims)) :
    ∀ m : Marks, results.foldl (Marks.sample rubric) m =
      (parsedValues results).foldl (Marks.add rubric) m := by
  induction results with
  | nil =>
    intro m
    simp [parsedValues]
  | cons r rs ih =>
    intro m
    rw [List.foldl_cons, ih]
    cases hv : r.value with
    | none => simp only [parsedValues, List.filterMap_cons, Marks.sample, hv]
    | some dims => simp only [parsedValues, List.filterMap_cons, Marks.sample, hv, List.foldl_cons]

theorem foldl_addDim_parsed (dims : SampleDims) :
    ∀ m : Marks, (dims.foldl Marks.addDim m).parsed = m.parsed := by
  induction dims with
  | nil => simp
  | cons p ps ih =>
    intro m
    rw [List.foldl_cons, ih]
    simp only [Marks.addDim]

theorem add_parsed (m : Marks) (dims : SampleDims) : (m.add rubric dims).parsed = m.parsed + 1 := by
  unfold Marks.add
  split <;> simp [foldl_addDim_parsed]

theorem foldl_add_parsed (values : List SampleDims) :
    ∀ m : Marks, (values.foldl (Marks.add rubric) m).parsed = m.parsed + values.length := by
  induction values with
  | nil => simp
  | cons v vs ih =>
    intro m
    rw [List.foldl_cons, ih, add_parsed, List.length_cons]
    omega

theorem foldl_addDim_perDim (key : String) (dims : SampleDims) :
    ∀ m : Marks, ((dims.foldl Marks.addDim m).perDim key).map Subtype.val =
      (m.perDim key).map Subtype.val ++
        dims.filterMap fun p => if p.1 = key then some p.2.1.val else none := by
  induction dims with
  | nil => simp
  | cons p ps ih =>
    intro m
    rw [List.foldl_cons, ih, List.filterMap_cons]
    by_cases hkey : p.1 = key
    · simp [Marks.addDim, push, hkey]
    · have hne : ¬ key = p.1 := fun h => hkey h.symm
      simp [Marks.addDim, push, hkey, hne]

theorem add_perDim (key : String) (m : Marks) (dims : SampleDims) :
    ((m.add rubric dims).perDim key).map Subtype.val =
      (m.perDim key).map Subtype.val ++ scoresOf [dims] key := by
  have h := foldl_addDim_perDim key dims { m with parsed := m.parsed + 1 }
  have hscores : scoresOf [dims] key =
      dims.filterMap fun p => if p.1 = key then some p.2.1.val else none := by
    simp [scoresOf]
  unfold Marks.add
  rw [hscores]
  split <;> exact h

/-- **The scores under a key are the key's scores over the samples.** -/
theorem foldl_add_perDim (key : String) (values : List SampleDims) :
    ∀ m : Marks, ((values.foldl (Marks.add rubric) m).perDim key).map Subtype.val =
      (m.perDim key).map Subtype.val ++ scoresOf values key := by
  induction values with
  | nil =>
    intro m
    simp [scoresOf]
  | cons v vs ih =>
    intro m
    rw [List.foldl_cons, ih, add_perDim, List.append_assoc]
    simp [scoresOf]

/-- What samples with the values `values` leave. -/
def collected (rubric : Rubric) (values : List SampleDims) : Marks :=
  values.foldl (Marks.add rubric) {}

theorem foldl_sample (results : List (Parsed SampleDims)) :
    results.foldl (Marks.sample rubric) {} = collected rubric (parsedValues results) :=
  foldl_marks results {}

theorem collected_perDim (values : List SampleDims) (key : String) :
    ((collected rubric values).perDim key).map Subtype.val = scoresOf values key := by
  have h := @foldl_add_perDim rubric key values {}
  simpa [collected] using h

theorem collected_parsed (values : List SampleDims) :
    (collected rubric values).parsed = values.length := by
  have h := @foldl_add_parsed rubric values {}
  simpa [collected] using h

end Marks

/-! ## What a dimension reports -/

section Dimensions

variable {rubric : Rubric} {values : List SampleDims} {det : List DetScore} {d : RubricDimension}

/-- A dimension reports what it measured, and is voided where it measured nothing. -/
theorem meanOf_eq (values : List SampleDims) (det : List DetScore) (d : RubricDimension) :
    meanOf (collected rubric values) det d =
      ((measured values det d).getD 0, (measured values det d).isNone) := by
  unfold meanOf measured
  cases hdet : det.find? fun s => decide (s.key = d.key) with
  | some s => cases hs : s.score <;> simp [hs]
  | none =>
    have hscores := @collected_perDim rubric values d.key
    simp only [hscores]
    by_cases hnil : scoresOf values d.key = []
    · -- no sample scored it: only a grounding dimension is voided for that
      cases hg : d.kind.isGrounding <;> simp [hnil]
    · simp [hnil]

theorem dimScore_voided : (dimScore (collected rubric values) det d).voided =
    (measured values det d).isNone := by
  simp [dimScore, meanOf_eq]

theorem dimScore_score : (dimScore (collected rubric values) det d).score =
    (measured values det d).getD 0 := by
  simp [dimScore, meanOf_eq]

/-- What a dimension measured is below its floor. -/
def belowFloor (values : List SampleDims) (det : List DetScore) (d : RubricDimension) : Bool :=
  (measured values det d).any fun x => d.floor.any fun f => decide (x < f)

theorem dimScore_floorHit : (dimScore (collected rubric values) det d).floorHit =
    belowFloor values det d := by
  simp only [dimScore, meanOf_eq, belowFloor]
  cases measured values det d <;> simp

theorem belowFloor_eq_false_iff : belowFloor values det d = false ↔
    ∀ f x, d.floor = some f → measured values det d = some x → f ≤ x := by
  unfold belowFloor
  cases measured values det d <;> cases d.floor <;> simp

theorem mem_scoresOf {x : ℚ} {key : String} (h : x ∈ scoresOf values key) : 0 ≤ x ∧ x ≤ 1 := by
  rcases List.mem_filterMap.1 h with ⟨p, _, hp⟩
  split at hp
  · injection hp with hp
    exact hp ▸ p.2.1.property
  · exact absurd hp (by simp)

/-- A mean of scores is a score. -/
theorem mean_bounds {l : List ℚ} (h : ∀ x ∈ l, 0 ≤ x ∧ x ≤ 1) (hne : l ≠ []) :
    0 ≤ l.sum / l.length ∧ l.sum / l.length ≤ 1 := by
  have hlen : (0 : ℚ) < l.length := by
    exact_mod_cast List.length_pos_of_ne_nil hne
  have hlow : 0 ≤ l.sum := List.sum_nonneg fun x hx => (h x hx).1
  have hhigh : l.sum ≤ l.length := by
    have := List.sum_le_card_nsmul l 1 fun x hx => (h x hx).2
    simpa using this
  exact ⟨div_nonneg hlow hlen.le, (div_le_one hlen).2 hhigh⟩

theorem measured_bounds {x : ℚ} (h : measured values det d = some x) : 0 ≤ x ∧ x ≤ 1 := by
  unfold measured at h
  split at h
  · rcases Option.map_eq_some_iff.1 h with ⟨s, _, hs⟩
    exact hs ▸ s.property
  · split at h
    · split at h
      · exact absurd h (by simp)
      · injection h with h
        subst h
        exact ⟨le_refl 0, zero_le_one⟩
    · rename_i hne
      injection h with h
      subst h
      exact mean_bounds (fun y hy => mem_scoresOf hy) hne

end Dimensions

/-! ## The overall -/

section Overall

variable {rubric : Rubric} {values : List SampleDims} {det : List DetScore}

/-- The dimensions an overall is formed of are those that measured something. -/
theorem kept_map (dims : List RubricDimension) :
    (((dims.map (dimScore (collected rubric values) det)).filter fun d => !d.voided).map
        fun d => (d.weight, d.score)) =
      dims.filterMap fun d => (measured values det d).map fun x => (d.weight, x) := by
  induction dims with
  | nil => simp
  | cons d ds ih =>
    have hw : (dimScore (collected rubric values) det d).weight = d.weight := by simp [dimScore]
    rw [List.map_cons, List.filter_cons, List.filterMap_cons]
    cases hm : measured values det d with
    | none => simpa [dimScore_voided, hm] using ih
    | some x => simpa [dimScore_voided, dimScore_score, hm, hw] using ih

theorem overallOf_eq (dimensions : List DimScore)
    (hw : ∀ d ∈ dimensions, 0 ≤ d.weight) :
    overallOf dimensions =
      Share.mean ((dimensions.filter fun d => !d.voided).map fun d => (d.weight, d.score)) := by
  unfold overallOf Share.mean
  have hnonneg : 0 ≤ ((dimensions.filter fun d => !d.voided).map DimScore.weight).sum := by
    apply List.sum_nonneg
    intro x hx
    rcases List.mem_map.1 hx with ⟨d, hd, rfl⟩
    exact hw d (List.mem_of_mem_filter hd)
  simp only [List.map_map, Function.comp_def]
  split
  · rfl
  · -- weights that add up to nothing: the quotient is zero as well
    rename_i hle
    have hzero := le_antisymm (not_lt.1 hle) hnonneg
    rw [hzero, div_zero]

theorem mem_weighing {p : ℚ × ℚ} (h : p ∈ weighing values det rubric) :
    ∃ d ∈ rubric.dimensions, p.1 = d.weight ∧ 0 ≤ p.2 ∧ p.2 ≤ 1 := by
  rcases List.mem_filterMap.1 h with ⟨d, hd, hp⟩
  rcases Option.map_eq_some_iff.1 hp with ⟨x, hx, rfl⟩
  exact ⟨d, hd, rfl, measured_bounds hx⟩

/-- **The weighted mean of what was measured is a score.** -/
theorem mean_weighing_bounds (hw : ∀ d ∈ rubric.dimensions, 0 ≤ d.weight) :
    0 ≤ Share.mean (weighing values det rubric) ∧ Share.mean (weighing values det rubric) ≤ 1 := by
  have hnonneg : ∀ p ∈ weighing values det rubric, 0 ≤ p.1 := by
    intro p hp
    rcases mem_weighing hp with ⟨d, hd, hpd, _⟩
    rw [hpd]
    exact hw d hd
  have hsum : 0 ≤ ((weighing values det rubric).map Prod.fst).sum := by
    apply List.sum_nonneg
    intro x hx
    rcases List.mem_map.1 hx with ⟨p, hp, rfl⟩
    exact hnonneg p hp
  rcases hsum.eq_or_lt with hzero | hpos
  · have hmean : Share.mean (weighing values det rubric) = 0 := by
      unfold Share.mean
      rw [← hzero, div_zero]
    rw [hmean]
    exact ⟨le_refl 0, zero_le_one⟩
  · constructor
    · apply Share.le_mean hnonneg hpos
      intro p hp
      rcases mem_weighing hp with ⟨_, _, _, hlow, _⟩
      exact hlow
    · apply Share.mean_le hnonneg hpos
      intro p hp
      rcases mem_weighing hp with ⟨_, _, _, _, hhigh⟩
      exact hhigh

end Overall

/-! ## The outcome -/

section Outcome

variable {rubric : Rubric} {results : List (Parsed SampleDims)} {det : List DetScore}
  {model : String} {k : ℕ}

/-- The dimensions of an outcome. -/
def reportedDimensions (rubric : Rubric) (values : List SampleDims) (det : List DetScore) :
    List DimScore := rubric.dimensions.map (dimScore (collected rubric values) det)

/-- Nothing of a nonempty rubric was measured. -/
def AllVoided (values : List SampleDims) (det : List DetScore) (rubric : Rubric) : Prop :=
  rubric.dimensions ≠ [] ∧ ∀ d ∈ rubric.dimensions, measured values det d = none

theorem reported_all_voided_iff {values : List SampleDims} :
    (reportedDimensions rubric values det ≠ [] ∧
      (reportedDimensions rubric values det).all DimScore.voided = true) ↔
      AllVoided values det rubric := by
  unfold AllVoided reportedDimensions
  rw [List.all_map, List.all_eq_true]
  simp [dimScore_voided]

/-- With a sample that parsed, only a rubric voided throughout has no outcome. -/
theorem aggregate_error_iff (hparsed : parsedValues results ≠ []) (e : EngineError) :
    aggregate results rubric model k det = .error e ↔
      AllVoided (parsedValues results) det rubric ∧ e = everyDimensionVoided rubric := by
  have hcount : ¬ (0 < k ∧ (collected rubric (parsedValues results)).parsed = 0) := by
    rintro ⟨_, hzero⟩
    rw [collected_parsed] at hzero
    exact hparsed (List.length_eq_zero_iff.1 hzero)
  have hvoided := @reported_all_voided_iff rubric det (parsedValues results)
  unfold aggregate
  rw [foldl_sample, if_neg hcount]
  unfold reportedDimensions at hvoided
  by_cases h : AllVoided (parsedValues results) det rubric
  · rw [if_pos (hvoided.2 h)]
    simp only [Except.error.injEq, h, true_and]
    exact eq_comm
  · rw [if_neg fun h' => h (hvoided.1 h')]
    simp [h]

/-- What an outcome takes from the samples that parsed. -/
theorem aggregate_ok {out : RubricOutcome} (h : aggregate results rubric model k det = .ok out) :
    out.dimensions = reportedDimensions rubric (parsedValues results) det ∧
      out.overall = overallOf out.dimensions ∧
      out.pass = passOf rubric.threshold out.dimensions ∧
      out.agreement = agreementOf (collected rubric (parsedValues results)).overalls ∧
      out.samplesParsed = (parsedValues results).length := by
  unfold aggregate at h
  rw [foldl_sample] at h
  dsimp only at h
  by_cases hnone : 0 < k ∧ (collected rubric (parsedValues results)).parsed = 0
  · rw [if_pos hnone] at h
    exact absurd h (by simp)
  rw [if_neg hnone] at h
  by_cases hvoid : rubric.dimensions.map (dimScore (collected rubric (parsedValues results)) det) ≠
      [] ∧ (rubric.dimensions.map (dimScore (collected rubric (parsedValues results)) det)).all
        DimScore.voided = true
  · rw [if_pos hvoid] at h
    exact absurd h (by simp)
  rw [if_neg hvoid] at h
  injection h with h
  subst h
  exact ⟨rfl, rfl, rfl, rfl, collected_parsed _⟩

/-- A description of a reported dimension: what it measured, and whether that breaches its floor. -/
def describe (d : DimScore) : String × ℚ × Option ℚ × Option ℚ × Bool :=
  (d.key, d.weight, d.floor, if d.voided then none else some d.score, d.floorHit)

theorem describe_dimScore (values : List SampleDims) (d : RubricDimension) :
    describe (dimScore (collected rubric values) det d) =
      (d.key, d.weight, d.floor, measured values det d, belowFloor values det d) := by
  unfold describe
  rw [dimScore_voided, dimScore_score, dimScore_floorHit]
  cases measured values det d <;> simp [dimScore]

/-- A dimension with another placeholder, if it is voided. -/
def revalue (f : DimScore → ℚ) (d : DimScore) : DimScore :=
  if d.voided then { d with score := f d } else d

theorem revalue_voided (f : DimScore → ℚ) (d : DimScore) : (revalue f d).voided = d.voided := by
  unfold revalue
  split <;> rfl

theorem revalue_floorHit (f : DimScore → ℚ) (d : DimScore) :
    (revalue f d).floorHit = d.floorHit := by
  unfold revalue
  split <;> rfl

theorem filter_map_revalue (f : DimScore → ℚ) (dims : List DimScore) :
    (dims.map (revalue f)).filter (fun d => !d.voided) = dims.filter fun d => !d.voided := by
  induction dims with
  | nil => simp
  | cons d ds ih =>
    rw [List.map_cons, List.filter_cons, List.filter_cons, ih, revalue_voided]
    cases hv : d.voided <;> simp [revalue, hv]

theorem overallOf_revalue (f : DimScore → ℚ) (dims : List DimScore) :
    overallOf (dims.map (revalue f)) = overallOf dims := by
  unfold overallOf
  rw [filter_map_revalue]

theorem passOf_revalue (threshold : ℚ) (f : DimScore → ℚ) (dims : List DimScore) :
    passOf threshold (dims.map (revalue f)) = passOf threshold dims := by
  unfold passOf
  rw [overallOf_revalue, List.all_map]
  simp only [Function.comp_def, revalue_floorHit]

theorem overallOf_reported (hw : ∀ d ∈ rubric.dimensions, 0 ≤ d.weight)
    (values : List SampleDims) :
    overallOf (reportedDimensions rubric values det) =
      Share.mean (weighing values det rubric) := by
  rw [overallOf_eq, reportedDimensions, kept_map, weighing]
  intro d hd
  rcases List.mem_map.1 hd with ⟨r, hr, rfl⟩
  exact hw r hr

theorem passOf_reported_iff (values : List SampleDims) :
    passOf rubric.threshold (reportedDimensions rubric values det) = true ↔
      rubric.threshold ≤ overallOf (reportedDimensions rubric values det) ∧
        ∀ d ∈ rubric.dimensions, ∀ f x, d.floor = some f → measured values det d = some x →
          f ≤ x := by
  unfold passOf
  rw [Bool.and_eq_true, decide_eq_true_iff]
  apply and_congr Iff.rfl
  rw [reportedDimensions, List.all_map, List.all_eq_true]
  apply forall_congr'
  intro d
  apply imp_congr Iff.rfl
  simp only [Function.comp_apply, dimScore_floorHit, Bool.not_eq_true']
  exact belowFloor_eq_false_iff

/-- An outcome is what the rubric says of the samples' values. -/
structure IsRubricOutcome (rubric : Rubric) (values : List SampleDims) (det : List DetScore)
    (out : RubricOutcome) : Prop where
  /-- every dimension reports what it measured, and whether that is below its floor -/
  dimensions : out.dimensions.map describe = rubric.dimensions.map fun d =>
    (d.key, d.weight, d.floor, measured values det d, belowFloor values det d)
  /-- the overall is the weighted mean of what was measured -/
  overall : out.overall = Share.mean (weighing values det rubric)
  weightless : ((weighing values det rubric).map Prod.fst).sum = 0 → out.overall = 0
  bounds : 0 ≤ out.overall ∧ out.overall ≤ 1
  pass : out.pass = true ↔ rubric.threshold ≤ out.overall ∧
    ∀ d ∈ rubric.dimensions, ∀ f x, d.floor = some f → measured values det d = some x → f ≤ x
  /-- what a voided dimension carries as its score decides nothing -/
  placeholders : ∀ f : DimScore → ℚ, overallOf (out.dimensions.map (revalue f)) = out.overall ∧
    passOf rubric.threshold (out.dimensions.map (revalue f)) = out.pass

theorem isRubricOutcome_of_aggregate (hw : ∀ d ∈ rubric.dimensions, 0 ≤ d.weight)
    {out : RubricOutcome} (h : aggregate results rubric model k det = .ok out) :
    IsRubricOutcome rubric (parsedValues results) det out := by
  rcases aggregate_ok h with ⟨hdims, hoverall, hpass, -, -⟩
  have hmean : out.overall = Share.mean (weighing (parsedValues results) det rubric) := by
    rw [hoverall, hdims, overallOf_reported hw]
  constructor
  · rw [hdims, reportedDimensions, List.map_map]
    apply List.map_congr_left
    intro d _
    exact describe_dimScore _ d
  · exact hmean
  · intro hzero
    rw [hmean, Share.mean, hzero, div_zero]
  · rw [hmean]
    exact mean_weighing_bounds hw
  · rw [hpass, hoverall, hdims]
    exact passOf_reported_iff _
  · intro f
    rw [overallOf_revalue, passOf_revalue, ← hoverall, ← hpass]
    exact ⟨rfl, rfl⟩

end Outcome

end LightTrack.Engine
