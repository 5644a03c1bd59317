import LightTrack.Core.Json
import LightTrack.Engine.Error

/-! # One sample of a judge

A judge model answers in prose around a JSON object.  A sample is one call, and one more that asks
for strict JSON when the first answer could not be read; it keeps account of both.

What `serde_json` and the number parser make of a text is a parameter.
-/

namespace LightTrack.Engine

/-! ## Rubrics

The dimensions a case is scored on, and what is scored without a model: one score a mechanical
dimension, from a check.  Scores lie between zero and one, as every check and every clamped sample
gives them.
-/

/-- `DimensionKind` -/
inductive DimensionKind where
  | llm
  | exact
  | regex
  | numeric
  | jsonValid
  | contains
  | exec
  | grounding
  deriving DecidableEq

namespace DimensionKind

/-- `is_llm` -/
def isLlm (k : DimensionKind) : Bool := decide (k = llm)

/-- `is_grounding` -/
def isGrounding (k : DimensionKind) : Bool := decide (k = grounding)

/-- `is_mechanical` -/
def isMechanical (k : DimensionKind) : Bool := !k.isLlm && !k.isGrounding

end DimensionKind

/-- A score: between zero and one. -/
abbrev Score := { x : ℚ // 0 ≤ x ∧ x ≤ 1 }

namespace Score

theorem clamp_bounds (x : ℚ) : 0 ≤ max 0 (min 1 x) ∧ max 0 (min 1 x) ≤ 1 :=
  ⟨le_max_left _ _, max_le zero_le_one (min_le_left _ _)⟩

/-- `clamp(0.0, 1.0)` -/
def clamp (x : ℚ) : Score := ⟨max 0 (min 1 x), clamp_bounds x⟩

end Score

/-- `RubricDimension`: what weighting and gating read of one. -/
structure RubricDimension where
  key : String
  weight : ℚ := 1
  floor : Option ℚ := none
  kind : DimensionKind := .llm

/-- `Rubric` -/
structure Rubric where
  dimensions : List RubricDimension
  threshold : ℚ := 7 / 10

/-- `DetScore`: the score of a mechanical dimension, none when it is voided. -/
structure DetScore where
  key : String
  score : Option Score
  reasoning : String

/-- `has_llm_dims` -/
def hasLlmDims (rubric : Rubric) : Bool := rubric.dimensions.any fun d => d.kind.isLlm

/-- `evaluate_all`: every mechanical dimension in turn, under what `evaluate` says of it. -/
def evaluateAll (evaluate : RubricDimension → Except EngineError (Option Score × String))
    (rubric : Rubric) : Except EngineError (List DetScore) :=
  (rubric.dimensions.filter fun d => d.kind.isMechanical).mapM fun d =>
    (evaluate d).map fun x => { key := d.key, score := x.1, reasoning := x.2 }

/-- Texts read as JSON, and the texts of its fractional numbers as numbers. -/
structure JsonReader where
  fromStr : String → Option Json
  f64Of : String → ℚ

/-- `Value::as_f64` -/
def asF64 (rd : JsonReader) : Json → Option ℚ
  | .num (.int n) => some n
  | .num (.float text) => some (rd.f64Of text)
  | _ => none

/-! ## Finding the object -/

/-- `balanced_end`: the balanced object a text starts with. A brace inside a string does not
count. -/
def balancedPrefix : ℕ → Bool → Bool → List Char → Option (List Char)
  | _, _, _, [] => none
  | depth, true, false, '\\' :: cs => (balancedPrefix depth true true cs).map ('\\' :: ·)
  | depth, true, false, '"' :: cs => (balancedPrefix depth false false cs).map ('"' :: ·)
  | depth, true, _, c :: cs => (balancedPrefix depth true false cs).map (c :: ·)
  | depth, false, esc, '"' :: cs => (balancedPrefix depth true esc cs).map ('"' :: ·)
  | depth, false, esc, '{' :: cs => (balancedPrefix (depth + 1) false esc cs).map ('{' :: ·)
  | depth, false, esc, '}' :: cs =>
    if depth = 1 then some ['}'] else (balancedPrefix (depth - 1) false esc cs).map ('}' :: ·)
  | depth, false, esc, c :: cs => (balancedPrefix depth false esc cs).map (c :: ·)

/-- The object at the start of a text, if it is balanced and parses. -/
def objectAt (rd : JsonReader) (cs : List Char) : Option String :=
  if cs.head? = some '{' then
    ((balancedPrefix 0 false false cs).map String.ofList).filter fun s => (rd.fromStr s).isSome
  else none

/-- `extract_json_object`: the first balanced object that parses, else what lies between the first
opening brace and the last closing one. -/
def extractJsonObject (rd : JsonReader) (s : String) : Option String :=
  (s.toList.tails.findSome? (objectAt rd)).or <|
    let rest := s.toList.dropWhile (· != '{')
    let slice := (rest.reverse.dropWhile (· != '}')).reverse
    if slice.isEmpty then none else some (String.ofList slice)

/-- `extract_json_value` -/
def extractJsonValue (rd : JsonReader) (s : String) : Json :=
  ((extractJsonObject rd s).bind rd.fromStr).getD .null

/-! ## Samples -/

/-- `GenOutcome` -/
structure GenOutcome where
  output : String
  costUsd : Option ℚ := none
  latencyMs : Option ℕ := none
  inputTokens : Option ℕ := none
  outputTokens : Option ℕ := none
  model : String := ""
  determinism : Determinism := .bestEffort

/-- `Parsed`: what a sample came to, and its accounting. -/
structure Parsed (τ : Type*) where
  value : Option τ := none
  rawFailure : Option String := none
  injectionSuspected : Bool := false
  determinism : Determinism := .exact
  costUsd : Option ℚ := none
  latencyMs : ℕ := 0
  inputTokens : ℕ := 0
  outputTokens : ℕ := 0
  model : String := ""

namespace Parsed

variable {τ : Type*}

/-- `record`: fold one provider call in. -/
def record (p : Parsed τ) (g : GenOutcome) : Parsed τ :=
  { p with
    costUsd := match g.costUsd with
      | some c => some (p.costUsd.getD 0 + c)
      | none => p.costUsd
    latencyMs := max p.latencyMs (g.latencyMs.getD 0)
    inputTokens := p.inputTokens + g.inputTokens.getD 0
    outputTokens := p.outputTokens + g.outputTokens.getD 0
    determinism := p.determinism.weakest g.determinism
    model := g.model }

end Parsed

/-- A prompt, and whether what it fences imitates a boundary. -/
structure Prompt where
  text : String
  injectionSuspected : Bool := false

/-- `BatchEntry` -/
structure BatchEntry where
  id : String
  input : String
  expected : Option String
  output : String

/-- The prompt builders of the engine. -/
structure Prompts where
  buildRepairPrompt : String → String → Prompt
  decomposePrompt : String → Prompt
  verifyPrompt : List String → List String → Prompt
  buildBatchRubricPrompt : Rubric → List BatchEntry → Prompt

/-- The repair re-ask of a sample, after `malformed`. -/
def repairSample {τ : Type*} (gen : String → Except EngineError GenOutcome)
    (parse : String → Except EngineError τ) (repair : Prompt) (malformed : String)
    (acc : Parsed τ) : Except EngineError (Parsed τ) :=
  let acc := { acc with injectionSuspected := acc.injectionSuspected || repair.injectionSuspected }
  match gen repair.text with
  | .ok g =>
    match parse g.output with
    | .ok v => .ok { acc.record g with value := some v }
    | .error _ => .ok { acc.record g with rawFailure := some g.output }
  | .error e => if e.isEmptyCompletion then .ok { acc with rawFailure := some malformed } else .error e

/-- `sample_parsed`: one call, and one repair of an answer that could not be read. -/
def sampleParsed {τ : Type*} (gen : String → Except EngineError GenOutcome)
    (buildRepairPrompt : String → String → Prompt) (prompt : String)
    (parse : String → Except EngineError τ) : Except EngineError (Parsed τ) :=
  match gen prompt with
  | .ok g =>
    match parse g.output with
    | .ok v => .ok { ({} : Parsed τ).record g with value := some v }
    | .error _ =>
      repairSample gen parse (buildRepairPrompt prompt g.output) g.output (({} : Parsed τ).record g)
  | .error e =>
    if e.isEmptyCompletion then repairSample gen parse (buildRepairPrompt prompt "") "" {}
    else .error e

/-- The text a call gave, if it gave one. -/
def outputsOf : Except EngineError GenOutcome → List String
  | .ok g => [g.output]
  | .error _ => []

/-- The texts a sample received: one that can be read ends it, another one is asked for repair. -/
def received {τ : Type*} (gen : String → Except EngineError GenOutcome)
    (buildRepairPrompt : String → String → Prompt) (prompt : String)
    (parse : String → Except EngineError τ) : List String :=
  match gen prompt with
  | .ok g =>
    match parse g.output with
    | .ok _ => [g.output]
    | .error _ => g.output :: outputsOf (gen (buildRepairPrompt prompt g.output).text)
  | .error e =>
    if e.isEmptyCompletion then outputsOf (gen (buildRepairPrompt prompt "").text) else []

section Received

variable {τ υ : Type*} {gen : String → Except EngineError GenOutcome}
  {buildRepairPrompt : String → String → Prompt} {prompt malformed : String}
  {parse : String → Except EngineError τ} {repair : Prompt} {acc p : Parsed τ}

theorem repairSample_value (hacc : acc.value = none)
    (h : repairSample gen parse repair malformed acc = .ok p) (f : τ → Option υ) :
    p.value.bind f =
      (outputsOf (gen repair.text)).findSome? fun raw => (parse raw).toOption.bind f := by
  unfold repairSample at h
  dsimp only at h
  cases hgen : gen repair.text with
  | ok g =>
    rw [hgen] at h
    dsimp only at h
    cases hparse : parse g.output with
    | ok v =>
      rw [hparse] at h
      injection h with h
      subst h
      cases hf : f v <;> simp [outputsOf, hparse, Except.toOption, hf]
    | error e =>
      rw [hparse] at h
      injection h with h
      subst h
      simp [outputsOf, hparse, Except.toOption, Parsed.record, hacc]
  | error e =>
    rw [hgen] at h
    dsimp only at h
    by_cases he : e.isEmptyCompletion = true
    · rw [if_pos he] at h
      injection h with h
      subst h
      simp [outputsOf, hacc]
    · rw [if_neg he] at h
      exact absurd h (by simp)

/-- **What is read off a sample is the first reading of the texts it received.** -/
theorem sampleParsed_value (h : sampleParsed gen buildRepairPrompt prompt parse = .ok p)
    (f : τ → Option υ) :
    p.value.bind f = (received gen buildRepairPrompt prompt parse).findSome? fun raw =>
      (parse raw).toOption.bind f := by
  unfold sampleParsed at h
  unfold received
  cases hgen : gen prompt with
  | ok g =>
    rw [hgen] at h
    dsimp only at h ⊢
    cases hparse : parse g.output with
    | ok v =>
      rw [hparse] at h
      injection h with h
      subst h
      cases hf : f v <;> simp [hparse, Except.toOption, hf]
    | error e =>
      rw [hparse] at h
      rw [repairSample_value (by simp [Parsed.record]) h f]
      simp [hparse, Except.toOption]
  | error e =>
    rw [hgen] at h
    dsimp only at h ⊢
    by_cases he : e.isEmptyCompletion = true
    · rw [if_pos he] at h
      rw [if_pos he, repairSample_value rfl h f]
    · rw [if_neg he] at h
      exact absurd h (by simp)

end Received

/-! ## A rubric verdict -/

/-- The dimensions of one sample: key, score and reasoning. -/
abbrev SampleDims := List (String × Score × String)

/-- One dimension of `parse_sample_value`. -/
def parseDimension (rd : JsonReader) (out : Json) (d : RubricDimension) :
    Except EngineError (String × Score × String) :=
  let obj := out.get d.key
  match (obj.bind (Json.get "score")).bind (asF64 rd) with
  | none => .error (.parse ("rubric judge output missing numeric score for dimension '" ++ d.key ++
      "': " ++ out.render))
  | some x => .ok (d.key, .clamp x, ((obj.bind (Json.get "reasoning")).bind Json.asStr).getD "")

/-- `parse_sample_value`: every dimension the model was asked about, or nothing. -/
def parseSampleValue (rd : JsonReader) (rubric : Rubric) (out : Json) :
    Except EngineError SampleDims :=
  (rubric.dimensions.filter fun d => d.kind.isLlm).mapM (parseDimension rd out)

/-- `parse_sample` -/
def parseSample (rd : JsonReader) (rubric : Rubric) (raw : String) :
    Except EngineError SampleDims :=
  let out := extractJsonValue rd raw
  if out.isNull then .error (.parse ("no JSON object in rubric judge output: " ++ raw))
  else parseSampleValue rd rubric out

end LightTrack.Engine
