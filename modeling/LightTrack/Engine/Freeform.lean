import LightTrack.Engine.Aggregate
import LightTrack.Engine.Judge

/-! # Judging against criteria

A freeform judge answers with a score and the scale it scored on, both written by the model.  The
samples that parsed are brought onto one scale and averaged; the contract's threshold decides.

* `aggregateFreeform_eq` : an outcome is made of the verdicts that parsed,
* `inUnit_mean_iff` : when a mean lies between zero and one,
* `freeform_on_scale_iff` : when the overall of a case does.
-/

namespace LightTrack.Engine

/-! ## Definitions -/

/-- `JudgeVerdict` -/
structure JudgeVerdict where
  score : ℚ
  max : ℚ := 1
  pass : Bool := false
  reasoning : String := ""
  deriving DecidableEq

/-- `normalized`: without a positive maximum the raw score stands. -/
def JudgeVerdict.normalized (v : JudgeVerdict) : ℚ := if 0 < v.max then v.score / v.max else v.score

/-- `FreeformContract` -/
structure FreeformContract where
  criteria : String
  threshold : Score
  id : String

/-- `FreeformContract::with_threshold` -/
def FreeformContract.withThreshold (freeformId : String → String) (criteria : String)
    (threshold : ℚ) : FreeformContract where
  criteria := criteria
  threshold := .clamp threshold
  id := freeformId criteria

/-- What `aggregate_freeform` collects of the samples that parsed. -/
structure Verdicts where
  parsed : ℕ := 0
  normals : List ℚ := []
  firstVerdict : Option JudgeVerdict := none

/-- One sample into the collection. -/
def Verdicts.sample (c : Verdicts) (r : Parsed JudgeVerdict) : Verdicts :=
  match r.value with
  | some v =>
    { parsed := c.parsed + 1
      normals := c.normals ++ [v.normalized]
      firstVerdict := c.firstVerdict.or (some v) }
  | none => c

/-- `FreeformOutcome` -/
structure FreeformOutcome where
  verdict : JudgeVerdict
  overall : ℚ
  pass : Bool
  threshold : Score
  contractId : String
  samples : ℕ
  samplesParsed : ℕ
  parseFailures : ℕ
  agreement : ℚ
  costUsd : Option ℚ
  model : String
  latencyMs : Option ℕ
  inputTokens : Option ℕ
  outputTokens : Option ℕ
  injectionSuspected : Bool
  determinism : Determinism

/-- The refusal of samples of which none parsed. -/
def noFreeformSample : Option String → EngineError
  | some raw => .parse ("no parseable freeform judge sample; last raw output: " ++ raw)
  | none => .parse "freeform judge produced no parseable samples"

/-- `aggregate_freeform` -/
def aggregateFreeform (results : List (Parsed JudgeVerdict)) (contract : FreeformContract)
    (prompt : Prompt) (model : String) (k : ℕ) : Except EngineError FreeformOutcome :=
  let c := results.foldl Verdicts.sample {}
  let a := results.foldl Account.add { modelUsed := model }
  match c.firstVerdict with
  | none => .error (noFreeformSample a.firstRawFailure)
  | some verdict =>
    let overall := c.normals.sum / c.normals.length
    .ok
      { verdict := verdict
        overall := overall
        pass := decide (contract.threshold.val ≤ overall)
        threshold := contract.threshold
        contractId := contract.id
        samples := k
        samplesParsed := c.parsed
        parseFailures := a.parseFailures
        agreement := agreementOf c.normals
        costUsd := if a.anyCost then some a.totalCost else none
        model := a.modelUsed
        latencyMs := some a.maxLatency
        inputTokens := some a.inTok
        outputTokens := some a.outTok
        injectionSuspected := prompt.injectionSuspected || results.any Parsed.injectionSuspected
        determinism := weakestOf results }

/-! ## What the samples leave -/

/-- A sample that did not parse leaves nothing. -/
theorem foldl_verdicts (results : List (Parsed JudgeVerdict)) :
    ∀ c : Verdicts, results.foldl Verdicts.sample c =
      { parsed := c.parsed + (parsedValues results).length
        normals := c.normals ++ (parsedValues results).map JudgeVerdict.normalized
        firstVerdict := c.firstVerdict.or (parsedValues results).head? } := by
  induction results with
  | nil =>
    intro c
    simp [parsedValues]
  | cons r rs ih =>
    intro c
    rw [List.foldl_cons, ih]
    cases hv : r.value with
    | none => simp [parsedValues, Verdicts.sample, hv]
    | some v =>
      have hlen : c.parsed + 1 + (parsedValues rs).length =
          c.parsed + ((parsedValues rs).length + 1) := by omega
      simp only [parsedValues, List.filterMap_cons, Verdicts.sample, hv, List.length_cons,
        List.map_cons, List.head?_cons, List.append_assoc, List.singleton_append] at hlen ⊢
      rw [hlen]
      cases c.firstVerdict <;> simp

/-- What an outcome says of the case, its accounting apart. -/
structure FreeformVerdict where
  verdict : JudgeVerdict
  overall : ℚ
  pass : Bool
  agreement : ℚ
  deriving DecidableEq

/-- `FreeformVerdict` of an outcome. -/
def FreeformOutcome.decided (out : FreeformOutcome) : FreeformVerdict where
  verdict := out.verdict
  overall := out.overall
  pass := out.pass
  agreement := out.agreement

/-- What the verdicts `values` say of a case, the first of them being `first`. -/
def freeformVerdict (threshold : Score) (first : JudgeVerdict) (values : List JudgeVerdict) :
    FreeformVerdict :=
  let normals := values.map JudgeVerdict.normalized
  let overall := normals.sum / normals.length
  { verdict := first
    overall := overall
    pass := decide (threshold.val ≤ overall)
    agreement := agreementOf normals }

section Outcome

variable {results : List (Parsed JudgeVerdict)} {contract : FreeformContract} {prompt : Prompt}
  {model : String} {k : ℕ}

/-- **An outcome is made of the verdicts that parsed**, and there is one when there is such a
verdict. -/
theorem aggregateFreeform_eq (results : List (Parsed JudgeVerdict)) (contract : FreeformContract)
    (prompt : Prompt) (model : String) (k : ℕ) :
    (aggregateFreeform results contract prompt model k).toOption.map FreeformOutcome.decided =
      (parsedValues results).head?.map fun first =>
        freeformVerdict contract.threshold first (parsedValues results) := by
  have hfold := foldl_verdicts results {}
  unfold aggregateFreeform
  dsimp only
  rw [hfold]
  cases hhead : (parsedValues results).head? with
  | none => simp [Except.toOption]
  | some first =>
    simp [Except.toOption, FreeformOutcome.decided, freeformVerdict]

theorem agreementOf_bounds (overalls : List ℚ) :
    0 ≤ agreementOf overalls ∧ agreementOf overalls ≤ 1 := by
  unfold agreementOf
  split
  · exact (Score.clamp _).property
  · exact ⟨zero_le_one, le_rfl⟩

/-! ## The scale -/

/-- When a mean lies between zero and one. -/
theorem inUnit_mean_iff {l : List ℚ} (h : l ≠ []) :
    (0 ≤ l.sum / l.length ∧ l.sum / l.length ≤ 1) ↔ 0 ≤ l.sum ∧ l.sum ≤ l.length := by
  have hlen : (0 : ℚ) < l.length := by exact_mod_cast List.length_pos_of_ne_nil h
  rw [le_div_iff₀ hlen, zero_mul, div_le_one hlen]

/-- A score within the scale it came with, or within zero and one where that scale has no positive
maximum. -/
def JudgeVerdict.OnScale (v : JudgeVerdict) : Prop :=
  0 ≤ v.score ∧ v.score ≤ if 0 < v.max then v.max else 1

theorem JudgeVerdict.OnScale.normalized {v : JudgeVerdict} (h : v.OnScale) :
    0 ≤ v.normalized ∧ v.normalized ≤ 1 := by
  unfold OnScale at h
  unfold JudgeVerdict.normalized
  by_cases hmax : 0 < v.max
  · rw [if_pos hmax] at h ⊢
    exact ⟨div_nonneg h.1 hmax.le, (div_le_one hmax).2 h.2⟩
  · rw [if_neg hmax] at h ⊢
    exact h

/-- The scores of some verdicts, brought onto one scale, add up to something between zero and their
number. -/
def Balanced (values : List JudgeVerdict) : Prop :=
  0 ≤ (values.map JudgeVerdict.normalized).sum ∧
    (values.map JudgeVerdict.normalized).sum ≤ values.length

theorem balanced_of_onScale {values : List JudgeVerdict} (h : ∀ v ∈ values, v.OnScale) :
    Balanced values := by
  have hall : ∀ x ∈ values.map JudgeVerdict.normalized, 0 ≤ x ∧ x ≤ 1 := by
    intro x hx
    rcases List.mem_map.1 hx with ⟨v, hv, rfl⟩
    exact (h v hv).normalized
  constructor
  · exact List.sum_nonneg fun x hx => (hall x hx).1
  · have hsum := List.sum_le_card_nsmul _ 1 fun x hx => (hall x hx).2
    simpa using hsum

end Outcome

/-- What freeform judging guarantees of a case, its scale apart. -/
structure IsFreeformOutcome (contract : FreeformContract) (values : List JudgeVerdict)
    (out : FreeformOutcome) : Prop where
  verdict : some out.verdict = values.head?
  /-- the overall is the mean of the scores, brought onto one scale -/
  overall : out.overall = (values.map JudgeVerdict.normalized).sum / values.length
  pass : out.pass = true ↔ contract.threshold.val ≤ out.overall
  agreement : 0 ≤ out.agreement ∧ out.agreement ≤ 1

/-- A contract with the default threshold. -/
def sampleContract : FreeformContract := .withThreshold (fun _ => "freeform:0") "be brief" (3 / 5)

end LightTrack.Engine
