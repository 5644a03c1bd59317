import LightTrack.Engine.Aggregate
import LightTrack.Engine.Grounding
import LightTrack.Lib.Traverse

/-! # Judging one case

The samples of one case, drawn one call after another and aggregated.

* `judgeWith` : the judge of a case without evidence,
* `caseVerdict` : what an outcome says of the case, from the samples' values alone,
* `judgeWith_verdict` : the judge says what the values of the texts it received say.
-/

namespace LightTrack.Engine

/-! ## Definitions -/

/-- How many samples a rubric takes: none if no model is asked. -/
def sampleCount (rubric : Rubric) (samples : ℕ) : ℕ :=
  if hasLlmDims rubric then max samples 1 else 0

/-- The samples `judge_with` draws; a provider's failure is the case's. -/
def judgeSamples (rd : JsonReader) (ps : Prompts) (gen : Generator) (rubric : Rubric)
    (prompt : Prompt) (samples : ℕ) : Except EngineError (List (Parsed SampleDims)) :=
  (List.range (sampleCount rubric samples)).mapM fun i =>
    sampleParsed (gen i) ps.buildRepairPrompt prompt.text (parseSample rd rubric)

/-- The weakest of the samples' determinisms. -/
def weakestOf {τ : Type*} (results : List (Parsed τ)) : Determinism :=
  results.foldl (fun acc r => acc.weakest r.determinism) .exact

/-- `judge_with`: a case that carries no evidence. -/
def judgeWith (rd : JsonReader) (ps : Prompts) (gen : Generator) (rubric : Rubric)
    (prompt : Prompt) (model : String) (samples : ℕ) (det : List DetScore) :
    Except EngineError RubricOutcome :=
  match groundingDim rubric false with
  | .error e => .error e
  | .ok _ =>
    match judgeSamples rd ps gen rubric prompt samples with
    | .error e => .error e
    | .ok results =>
      (aggregate results rubric model (sampleCount rubric samples) det).map fun out =>
        { out with
          injectionSuspected := prompt.injectionSuspected ||
            results.any Parsed.injectionSuspected
          determinism := weakestOf results }

/-! ## What an outcome says -/

/-- What an outcome says of the case, its accounting apart. -/
structure CaseVerdict where
  dimensions : List DimScore
  overall : ℚ
  pass : Bool
  agreement : ℚ

/-- `CaseVerdict` of an outcome. -/
def RubricOutcome.verdict (out : RubricOutcome) : CaseVerdict :=
  { dimensions := out.dimensions
    overall := out.overall
    pass := out.pass
    agreement := out.agreement }

/-- What samples with the values `values` say of a case, if they say anything. -/
def caseVerdict (rubric : Rubric) (values : List SampleDims) (det : List DetScore) (k : ℕ) :
    Option CaseVerdict :=
  let dimensions := reportedDimensions rubric values det
  if (0 < k ∧ values.length = 0) ∨ (dimensions ≠ [] ∧ dimensions.all DimScore.voided = true) then
    none
  else some
    { dimensions := dimensions
      overall := overallOf dimensions
      pass := passOf rubric.threshold dimensions
      agreement := agreementOf (collected rubric values).overalls }

/-- **An outcome says what the values of its samples say**, and there is one when they say
anything. -/
theorem aggregate_verdict (results : List (Parsed SampleDims)) (rubric : Rubric) (model : String)
    (k : ℕ) (det : List DetScore) :
    (aggregate results rubric model k det).toOption.map RubricOutcome.verdict =
      caseVerdict rubric (parsedValues results) det k := by
  unfold aggregate caseVerdict
  rw [foldl_sample]
  dsimp only
  rw [collected_parsed, ← reportedDimensions]
  by_cases hnone : 0 < k ∧ (parsedValues results).length = 0
  · rw [if_pos hnone, if_pos (Or.inl hnone)]
    simp [Except.toOption]
  rw [if_neg hnone]
  by_cases hvoid : reportedDimensions rubric (parsedValues results) det ≠ [] ∧
      (reportedDimensions rubric (parsedValues results) det).all DimScore.voided = true
  · rw [if_pos hvoid, if_pos (Or.inr hvoid)]
    simp [Except.toOption]
  · rw [if_neg hvoid, if_neg (not_or.2 ⟨hnone, hvoid⟩)]
    simp [Except.toOption, RubricOutcome.verdict]

theorem map_toOption {ε α β : Type*} (x : Except ε α) (f : α → β) :
    (x.map f).toOption = x.toOption.map f := by
  cases x <;> simp [Except.map, Except.toOption]

/-- The values of samples, each by what it received. -/
theorem parsedValues_of_mapM {τ : Type*} {k : ℕ} {gen : Generator} {prompts : ℕ → String}
    {buildRepairPrompt : String → String → Prompt} {parse : String → Except EngineError τ}
    {results : List (Parsed τ)}
    (h : (List.range k).mapM (fun i =>
      sampleParsed (gen i) buildRepairPrompt (prompts i) parse) = .ok results)
    {υ : Type*} (f : τ → Option υ) :
    results.filterMap (fun p => p.value.bind f) = (List.range k).filterMap fun i =>
      (received (gen i) buildRepairPrompt (prompts i) parse).findSome? fun raw =>
        (parse raw).toOption.bind f := by
  have hall := Traverse.mapM_eq_ok_iff.1 h
  clear h
  generalize List.range k = indices at hall ⊢
  induction hall with
  | nil => simp
  | cons hab _ ih =>
    rw [List.filterMap_cons, List.filterMap_cons, ih, sampleParsed_value hab f]

/-- The value of the first text of each sample that can be read. -/
def judgedValues (rd : JsonReader) (ps : Prompts) (gen : Generator) (rubric : Rubric)
    (prompt : Prompt) (samples : ℕ) : List SampleDims :=
  (List.range (sampleCount rubric samples)).filterMap fun i =>
    (received (gen i) ps.buildRepairPrompt prompt.text (parseSample rd rubric)).findSome?
      fun raw => (parseSample rd rubric raw).toOption

section Judge

variable {rd : JsonReader} {ps : Prompts} {gen : Generator} {rubric : Rubric} {prompt : Prompt}
  {model : String} {samples : ℕ} {det : List DetScore} {results : List (Parsed SampleDims)}

theorem judgeWith_verdict (hdim : groundingDim rubric false = .ok none)
    (h : judgeSamples rd ps gen rubric prompt samples = .ok results) :
    (judgeWith rd ps gen rubric prompt model samples det).toOption.map RubricOutcome.verdict =
      caseVerdict rubric (judgedValues rd ps gen rubric prompt samples) det
        (sampleCount rubric samples) := by
  have hvalues : parsedValues results = judgedValues rd ps gen rubric prompt samples := by
    have hmap := @parsedValues_of_mapM _ _ _ (fun _ => prompt.text) _ _ _ h _ some
    simpa [parsedValues, judgedValues] using hmap
  unfold judgeWith
  rw [hdim, h]
  dsimp only
  rw [map_toOption, Option.map_map, ← hvalues, ← aggregate_verdict results rubric model]
  congr 1

end Judge

end LightTrack.Engine
