import LightTrack.Engine.Sample

/-! # Pairwise judging

Two answers are judged twice, in either order, and the verdict is what the orders agree on.

* `combine_swap` : the orders the other way round give the mirrored winner,
* `pairwiseVia_swap` : so do the answers, for a judge that does not know which order it is in,
* `pairwiseVia_of_positional` : a judge of positions decides nothing.
-/

namespace LightTrack.Engine

/-- `PairwiseWinner` -/
inductive PairwiseWinner where
  | a
  | b
  | tie
  deriving DecidableEq, Repr

/-- `PairwiseVerdict` -/
structure PairwiseVerdict where
  winner : PairwiseWinner
  reasoning : String := ""

/-- `PairwiseOutcome` -/
structure PairwiseOutcome where
  winner : PairwiseWinner
  positionBias : Bool
  reasoning : String
  costUsd : Option ℚ
  inputTokens : ℕ
  outputTokens : ℕ
  tokens : ℕ
  model : String
  injectionSuspected : Bool
  determinism : Determinism

/-- `unswap` -/
def unswap : PairwiseWinner → PairwiseWinner
  | .a => .b
  | .b => .a
  | .tie => .tie

/-- `combine` -/
def combine (order1 order2Raw : PairwiseWinner) : PairwiseWinner × Bool :=
  let order2 := unswap order2Raw
  if order1 = order2 then (order1, false) else (.tie, true)

/-- `add_cost` -/
def addCost (a b : Option ℚ) : Option ℚ :=
  match a, b with
  | none, none => none
  | _, _ => some (a.getD 0 + b.getD 0)

/-- What the pairwise judge's prompts and replies are made with: `build_pairwise_prompt`, the repair
prompt and `serde_json` on a verdict. -/
structure PairwiseEnv where
  reader : JsonReader
  buildPairwisePrompt : String → Option String → String → String → Option String → Prompt
  buildRepairPrompt : String → String → Prompt
  verdictOf : String → Except String PairwiseVerdict

/-- `parse_pairwise` -/
def parsePairwise (env : PairwiseEnv) (raw : String) : Except EngineError PairwiseVerdict :=
  match extractJsonObject env.reader raw with
  | none => .error (.parse ("no JSON object in pairwise output: " ++ raw))
  | some json =>
    match env.verdictOf json with
    | .ok v => .ok v
    | .error e => .error (.parse ("pairwise JSON not a verdict: " ++ e ++ "; got: " ++ json))

/-- `assemble` -/
def assemble (r1 r2 : Parsed PairwiseVerdict) (injectionSuspected : Bool) :
    Except EngineError PairwiseOutcome :=
  match r1.value with
  | none => .error (.parse "pairwise judge produced no verdict (order 1)")
  | some v1 =>
    match r2.value with
    | none => .error (.parse "pairwise judge produced no verdict (order 2)")
    | some v2 =>
      let winner := combine v1.winner v2.winner
      .ok
        { winner := winner.1
          positionBias := winner.2
          reasoning :=
            if winner.2 then
              "orders disagreed (position bias) — order1: " ++ v1.reasoning ++ "; order2: " ++
                v2.reasoning
            else v1.reasoning
          costUsd := addCost r1.costUsd r2.costUsd
          inputTokens := r1.inputTokens + r2.inputTokens
          outputTokens := r1.outputTokens + r2.outputTokens
          tokens := r1.inputTokens + r2.inputTokens + (r1.outputTokens + r2.outputTokens)
          model := if r2.model ≠ "" then r2.model else r1.model
          injectionSuspected :=
            injectionSuspected || r1.injectionSuspected || r2.injectionSuspected
          determinism := r1.determinism.weakest r2.determinism }

section Pairwise

variable (env : PairwiseEnv)

/-- `pairwise_via`: the answers in one order, then in the other. -/
def pairwiseVia (gen : ℕ → String → Except EngineError GenOutcome) (input : String)
    (expected : Option String) (answerA answerB : String) (criteria : Option String) :
    Except EngineError PairwiseOutcome := do
  let p1 := env.buildPairwisePrompt input expected answerA answerB criteria
  let p2 := env.buildPairwisePrompt input expected answerB answerA criteria
  let r1 ← sampleParsed (gen 0) env.buildRepairPrompt p1.text (parsePairwise env)
  let r2 ← sampleParsed (gen 1) env.buildRepairPrompt p2.text (parsePairwise env)
  assemble r1 r2 (p1.injectionSuspected || p2.injectionSuspected)

/-- `run_pairwise`, of `generate_deterministic`: the judge is not told the order. -/
def runPairwise (generate : String → Except EngineError GenOutcome) (input : String)
    (expected : Option String) (answerA answerB : String) (criteria : Option String) :
    Except EngineError PairwiseOutcome :=
  pairwiseVia env (fun _ p => generate p) input expected answerA answerB criteria

/-- The winner and the bias flag of a game, if it was decided. -/
def decided (o : Except EngineError PairwiseOutcome) : Option (PairwiseWinner × Bool) :=
  o.toOption.map fun o => (o.winner, o.positionBias)

/-- A result from the other side. -/
def mirror (w : PairwiseWinner × Bool) : PairwiseWinner × Bool := (unswap w.1, w.2)

end Pairwise

/-! ## Orders -/

@[simp] theorem unswap_unswap (w : PairwiseWinner) : unswap (unswap w) = w := by
  cases w <;> rfl

theorem combine_swap (w w' : PairwiseWinner) : combine w' w = mirror (combine w w') := by
  cases w <;> cases w' <;> rfl

/-- A winner with the bias flag is a tie. -/
theorem combine_biased {w w' : PairwiseWinner} (h : (combine w w').2 = true) :
    (combine w w').1 = .tie := by
  unfold combine at *
  simp only at *
  split_ifs at h
  rw [if_neg ‹_›]

/-- The same preference in either order is one of the position. -/
theorem combine_positional {w : PairwiseWinner} : (combine w w).1 = .tie := by
  cases w <;> rfl

/-! ## Games -/

section Games

variable {env : PairwiseEnv} {gen : ℕ → String → Except EngineError GenOutcome} {input : String}
  {expected criteria : Option String} {answerA answerB : String}

/-- The verdict on the answers in the order shown. -/
def verdictShown (env : PairwiseEnv) (gen : ℕ → String → Except EngineError GenOutcome) (order : ℕ)
    (input : String) (expected : Option String) (first second : String) (criteria : Option String) :
    Option PairwiseVerdict :=
  (sampleParsed (gen order) env.buildRepairPrompt
    (env.buildPairwisePrompt input expected first second criteria).text
    (parsePairwise env)).toOption.bind Parsed.value

/-- **A game is decided by the verdicts on its two orders**, if there are both. -/
theorem decided_pairwiseVia :
    decided (pairwiseVia env gen input expected answerA answerB criteria) =
      (verdictShown env gen 0 input expected answerA answerB criteria).bind fun v1 =>
        (verdictShown env gen 1 input expected answerB answerA criteria).map fun v2 =>
          combine v1.winner v2.winner := by
  unfold pairwiseVia verdictShown
  dsimp only
  rcases hr1 : sampleParsed (gen 0) env.buildRepairPrompt
    (env.buildPairwisePrompt input expected answerA answerB criteria).text (parsePairwise env) with e | r1
  · rfl
  · rcases hr2 : sampleParsed (gen 1) env.buildRepairPrompt
      (env.buildPairwisePrompt input expected answerB answerA criteria).text (parsePairwise env) with
        e | r2
    · change none = r1.value.bind fun _ => none
      cases r1.value <;> rfl
    · change decided (assemble r1 r2 _) =
        r1.value.bind fun v1 => r2.value.map fun v2 => combine v1.winner v2.winner
      unfold assemble
      cases r1.value with
      | none => rfl
      | some v1 =>
        cases r2.value with
        | none => rfl
        | some v2 => rfl

/-- **Swapping the answers of a game mirrors its result**, where the judge is not told the order. -/
theorem pairwiseVia_swap (hgen : gen 0 = gen 1) :
    decided (pairwiseVia env gen input expected answerB answerA criteria) =
      (decided (pairwiseVia env gen input expected answerA answerB criteria)).map mirror := by
  have hshown : ∀ first second, verdictShown env gen 0 input expected first second criteria =
      verdictShown env gen 1 input expected first second criteria := by
    intro first second
    unfold verdictShown
    rw [hgen]
  rw [decided_pairwiseVia, decided_pairwiseVia, hshown, hshown]
  cases verdictShown env gen 1 input expected answerA answerB criteria with
  | none => cases verdictShown env gen 1 input expected answerB answerA criteria <;> rfl
  | some v =>
    cases verdictShown env gen 1 input expected answerB answerA criteria with
    | none => rfl
    | some v' => exact congrArg some (combine_swap v.winner v'.winner)

/-- **A judge that prefers a position decides no game.** -/
theorem pairwiseVia_of_positional {w : PairwiseWinner}
    (h : ∀ order first second v, verdictShown env gen order input expected first second criteria =
      some v → v.winner = w) {r : PairwiseWinner × Bool}
    (hr : decided (pairwiseVia env gen input expected answerA answerB criteria) = some r) :
    r.1 = .tie := by
  rw [decided_pairwiseVia, Option.bind_eq_some_iff] at hr
  rcases hr with ⟨v1, hv1, hr⟩
  rcases Option.map_eq_some_iff.1 hr with ⟨v2, hv2, rfl⟩
  rw [h _ _ _ _ hv1, h _ _ _ _ hv2, combine_positional]

theorem decided_biased {r : PairwiseWinner × Bool}
    (hr : decided (pairwiseVia env gen input expected answerA answerB criteria) = some r)
    (hbias : r.2 = true) : r.1 = .tie := by
  rw [decided_pairwiseVia, Option.bind_eq_some_iff] at hr
  rcases hr with ⟨v1, hv1, hr⟩
  rcases Option.map_eq_some_iff.1 hr with ⟨v2, hv2, rfl⟩
  exact combine_biased hbias

end Games

end LightTrack.Engine
