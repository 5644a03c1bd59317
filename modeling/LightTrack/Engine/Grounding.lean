import LightTrack.Core.Text
import LightTrack.Engine.Sample
import LightTrack.Lib.Answers
import Mathlib.Algebra.Order.Field.Basic
import Mathlib.Data.Nat.Cast.Order.Ring

/-! # Grounding

An output is cut into claims, each claim is checked against the evidence, and the score is what is
supported among the claims issued.

* `scoreClaims` : verdicts matched to claims by number,
* `place_spec` : what one verdict does to the slots,
* `verdicts_eq` : a verdict for every claim, the first one with its number.
-/

namespace LightTrack.Engine

/-! ## Definitions -/

/-- `grounding_dim`: the rubric's grounding dimension, refused where it cannot be scored. -/
def groundingDim (rubric : Rubric) (hasEvidence : Bool) :
    Except EngineError (Option RubricDimension) :=
  match rubric.dimensions.filter fun d => d.kind.isGrounding with
  | [] => .ok none
  | d :: second :: _ => .error (.other ("rubric dimensions '" ++ d.key ++ "' and '" ++ second.key ++
      "' are both `grounding`; the procedure takes no per-dimension setting, so a second one " ++
      "would bill the same verdict twice"))
  | [d] =>
    if hasEvidence then .ok (some d)
    else .error (.other ("rubric dimension '" ++ d.key ++
      "' is `grounding` but this case carries no evidence passages (judge it through " ++
      "run_rubric_judge_with_evidence; batched judging carries none)"))

/-- `parse_claims` -/
def parseClaims (rd : JsonReader) (raw : String) : Except EngineError (List String) :=
  match ((extractJsonValue rd raw).get "claims").bind Json.asArray with
  | none => .error (.parse ("grounding decomposition has no `claims` array: " ++ raw))
  | some arr => .ok (((arr.filterMap Json.asStr).map strTrim).filter fun c => decide (c ≠ ""))

/-- `RawVerdict`: claim number, supported, reason. -/
structure RawVerdict where
  claim : Option ℕ
  supported : Option Bool
  reason : String

/-- `parse_verdicts` -/
def parseVerdicts (rd : JsonReader) (raw : String) : Except EngineError (List RawVerdict) :=
  match ((extractJsonValue rd raw).get "verdicts").bind Json.asArray with
  | none => .error (.parse ("grounding verification has no `verdicts` array: " ++ raw))
  | some arr => .ok (arr.map fun e =>
      { claim := (e.get "claim").bind Json.asU64
        supported := (e.get "supported").bind Json.asBool
        reason := ((e.get "reason").bind Json.asStr).getD "" })

/-- `ClaimVerdict` -/
structure ClaimVerdict where
  sample : ℕ
  number : ℕ
  claim : String
  supported : Bool
  reason : String
  missing : Bool

/-- `GroundSample`: no score where the output made no claims. -/
structure GroundSample where
  score : Option Score := none
  reasoning : String := ""
  verdicts : List ClaimVerdict := []
  missing : ℕ := 0
  stray : ℕ := 0

/-- The verdicts placed so far, by claim, and how many went astray. -/
structure Placed where
  got : List (Option (Bool × String))
  stray : ℕ := 0

/-- One verdict: it takes the slot of its claim, unless that is taken or there is none. -/
def place (n : ℕ) (st : Placed) (v : RawVerdict) : Placed :=
  match v.claim, v.supported with
  | some k, some s =>
    if 1 ≤ k ∧ k ≤ n ∧ st.got[k - 1]? = some none then
      { st with got := st.got.set (k - 1) (some (s, v.reason)) }
    else { st with stray := st.stray + 1 }
  | _, _ => { st with stray := st.stray + 1 }

/-- The verdict reported for the `i`-th claim. -/
def claimVerdict (sample i : ℕ) (claim : String) (v : Option (Bool × String)) : ClaimVerdict :=
  { sample := sample
    number := i + 1
    claim := claim
    supported := v.any Prod.fst
    reason := (v.map Prod.snd).getD ""
    missing := v.isNone }

theorem share_bounds {m n : ℕ} (h : m ≤ n) : 0 ≤ (m : ℚ) / n ∧ (m : ℚ) / n ≤ 1 :=
  ⟨div_nonneg (Nat.cast_nonneg m) (Nat.cast_nonneg n),
    div_le_one_of_le₀ (Nat.cast_le.2 h) (Nat.cast_nonneg n)⟩

/-- The share of a list that passes a test. -/
def shareOf {α : Type*} (p : α → Bool) (l : List α) : Score :=
  ⟨(l.countP p : ℚ) / l.length, share_bounds List.countP_le_length⟩

/-- `score_claims`: the denominator is the claims issued. -/
def scoreClaims (sample : ℕ) (claims : List String) (raw : List RawVerdict) : GroundSample :=
  let n := claims.length
  let st := raw.foldl (place n) { got := List.replicate n none }
  let verdicts := (claims.zip st.got).zipIdx.map fun x => claimVerdict sample x.2 x.1.1 x.1.2
  let supported := verdicts.countP ClaimVerdict.supported
  let missing := verdicts.countP ClaimVerdict.missing
  let reasoning := "grounding: " ++ toString supported ++ "/" ++ toString n ++
    " claims supported by the evidence"
  { score := some (shareOf ClaimVerdict.supported verdicts)
    reasoning := if 0 < missing + st.stray then reasoning ++ " (" ++ toString missing ++
        " without a verdict, counted unsupported; " ++ toString st.stray ++
        " stray verdict(s) ignored)"
      else reasoning
    verdicts := verdicts
    missing := missing
    stray := st.stray }

/-- `absorb`: fold one step's accounting into a sample. -/
def Parsed.absorb {τ υ : Type*} (into : Parsed τ) (step : Parsed υ) : Parsed τ :=
  { into with
    costUsd := match step.costUsd with
      | some c => some (into.costUsd.getD 0 + c)
      | none => into.costUsd
    latencyMs := into.latencyMs + step.latencyMs
    inputTokens := into.inputTokens + step.inputTokens
    outputTokens := into.outputTokens + step.outputTokens
    determinism := into.determinism.weakest step.determinism
    injectionSuspected := into.injectionSuspected || step.injectionSuspected
    model := if step.model = "" then into.model else step.model
    rawFailure := into.rawFailure.or step.rawFailure }

/-- `Generator` -/
abbrev Generator := ℕ → String → Except EngineError GenOutcome

/-- `Grounding` -/
structure Grounding where
  output : String
  evidence : List String
  decompose : Generator
  verify : Generator

/-- `ground`: cut, then check. -/
def ground (rd : JsonReader) (ps : Prompts) (g : Grounding) (index : ℕ) :
    Except EngineError (Parsed GroundSample) :=
  let dp := ps.decomposePrompt g.output
  match sampleParsed (g.decompose index) ps.buildRepairPrompt dp.text (parseClaims rd) with
  | .error e => .error e
  | .ok cut =>
    let out := ({} : Parsed GroundSample).absorb
      { cut with injectionSuspected := cut.injectionSuspected || dp.injectionSuspected }
    match cut.value with
    | none => .ok out
    | some [] => .ok { out with value := some {} }
    | some (c :: cs) =>
      let vp := ps.verifyPrompt g.evidence (c :: cs)
      match sampleParsed (g.verify index) ps.buildRepairPrompt vp.text (parseVerdicts rd) with
      | .error e => .error e
      | .ok checked =>
        let out := out.absorb
          { checked with
            injectionSuspected := checked.injectionSuspected || vp.injectionSuspected }
        .ok { out with value := checked.value.map (scoreClaims index (c :: cs)) }

/-! ## Placing verdicts -/

namespace RawVerdict

/-- What a well-formed verdict says. -/
def read (v : RawVerdict) : Option (Bool × String) := v.supported.map fun s => (s, v.reason)

end RawVerdict

/-- The first well-formed verdict on the claim numbered `k`. -/
def firstVerdict (k : ℕ) (raw : List RawVerdict) : Option (Bool × String) :=
  Answers.first RawVerdict.claim RawVerdict.read k raw

section Place

variable {n : ℕ} {st : Placed} {v : RawVerdict}

/-- A verdict fills the empty slot of its claim, or goes astray with nothing to say to any empty
slot. -/
theorem place_spec (n : ℕ) (st : Placed) (v : RawVerdict) :
    (∃ k s, v.claim = some (k + 1) ∧ v.supported = some s ∧ st.got[k]? = some none ∧
      place n st v = { st with got := st.got.set k (some (s, v.reason)) }) ∨
    ((∀ i, i < n → st.got[i]? = some none →
        Answers.reply RawVerdict.claim RawVerdict.read (i + 1) v = none) ∧
      place n st v = { st with stray := st.stray + 1 }) := by
  unfold place
  cases hc : v.claim with
  | none =>
    right
    refine ⟨?_, rfl⟩
    intro i _ _
    exact Answers.reply_of_ne (by simp [hc])
  | some k =>
    cases hs : v.supported with
    | none =>
      right
      refine ⟨?_, rfl⟩
      intro i _ _
      simp [Answers.reply, RawVerdict.read, hs]
    | some s =>
      by_cases hslot : 1 ≤ k ∧ k ≤ n ∧ st.got[k - 1]? = some none
      · left
        refine ⟨k - 1, s, ?_, rfl, hslot.2.2, if_pos hslot⟩
        congr 1
        omega
      · right
        refine ⟨?_, if_neg hslot⟩
        intro i hi hempty
        apply Answers.reply_of_ne
        intro hk
        rw [hc, Option.some.injEq] at hk
        apply hslot
        rw [hk]
        exact ⟨by omega, by omega, hempty⟩

theorem place_length : (place n st v).got.length = st.got.length := by
  rcases place_spec n st v with ⟨k, s, _, _, _, heq⟩ | ⟨_, heq⟩
  · rw [heq, List.length_set]
  · rw [heq]

/-- What a slot holds after a verdict: what it held, or what the verdict says to it. -/
theorem place_got {i : ℕ} (hi : i < n) (hlen : st.got.length = n) :
    (place n st v).got[i]? = st.got[i]?.map fun o =>
      o.or (Answers.reply RawVerdict.claim RawVerdict.read (i + 1) v) := by
  have hlt : i < st.got.length := by omega
  rcases place_spec n st v with ⟨k, s, hclaim, hsup, hempty, heq⟩ | ⟨hnone, heq⟩
  · rw [heq]
    by_cases hik : k = i
    · subst hik
      rw [hempty, List.getElem?_set_self hlt, Option.map_some, Option.none_or,
        Answers.reply_of_eq hclaim, RawVerdict.read, hsup, Option.map_some]
    · have hne : v.claim ≠ some (i + 1) := by
        rw [hclaim]
        simpa using hik
      rw [List.getElem?_set_ne hik, Answers.reply_of_ne hne]
      simp
  · rw [heq]
    rw [List.getElem?_eq_getElem hlt]
    cases hslot : st.got[i] with
    | some x => simp
    | none =>
      rw [hnone i hi (by rw [List.getElem?_eq_getElem hlt, hslot])]
      simp

/-- Every verdict is either placed or astray. -/
theorem place_count : (place n st v).got.countP Option.isSome + (place n st v).stray =
    st.got.countP Option.isSome + st.stray + 1 := by
  rcases place_spec n st v with ⟨k, s, _, _, hempty, heq⟩ | ⟨_, heq⟩
  · rcases List.getElem?_eq_some_iff.1 hempty with ⟨hlt, hget⟩
    rw [heq]
    simp only [List.countP_set hlt, hget]
    simp
    omega
  · rw [heq]
    simp only
    omega

end Place

section Fold

variable {n : ℕ} (raw : List RawVerdict)

theorem foldl_place_length (st : Placed) :
    (raw.foldl (place n) st).got.length = st.got.length := by
  induction raw generalizing st with
  | nil => simp
  | cons v raw ih => rw [List.foldl_cons, ih, place_length]

/-- **A slot ends up with the first verdict that has its number.** -/
theorem foldl_place_got {i : ℕ} (hi : i < n) (st : Placed) (hlen : st.got.length = n) :
    (raw.foldl (place n) st).got[i]? = st.got[i]?.map fun o => o.or (firstVerdict (i + 1) raw) := by
  induction raw generalizing st with
  | nil => simp [firstVerdict]
  | cons v raw ih =>
    rw [List.foldl_cons, ih _ (place_length.trans hlen), place_got hi hlen, Option.map_map,
      firstVerdict, firstVerdict, Answers.first_cons]
    congr 1
    funext o
    simp [Option.or_assoc]

theorem foldl_place_count (st : Placed) :
    (raw.foldl (place n) st).got.countP Option.isSome + (raw.foldl (place n) st).stray =
      st.got.countP Option.isSome + st.stray + raw.length := by
  induction raw generalizing st with
  | nil => simp
  | cons v raw ih =>
    have hstep := @place_count n st v
    rw [List.foldl_cons, ih, List.length_cons]
    omega

/-- The slots of `n` claims after all verdicts. -/
theorem foldl_place_eq : (raw.foldl (place n) { got := List.replicate n none }).got =
    (List.range n).map fun i => firstVerdict (i + 1) raw := by
  have hlen : (raw.foldl (place n) { got := List.replicate n none }).got.length = n := by
    rw [foldl_place_length, List.length_replicate]
  apply List.ext_getElem?
  intro i
  by_cases hi : i < n
  · rw [foldl_place_got raw hi _ (List.length_replicate), List.getElem?_map,
      List.getElem?_replicate, if_pos hi, List.getElem?_range hi]
    simp
  · rw [List.getElem?_eq_none (by omega), List.getElem?_eq_none]
    simp
    omega

end Fold

/-! ## Scoring claims -/

section Score

variable {sample : ℕ} {claims : List String} {raw : List RawVerdict}

/-- The reported verdicts, claim by claim. -/
theorem verdicts_eq : (scoreClaims sample claims raw).verdicts =
    claims.zipIdx.map fun x => claimVerdict sample x.2 x.1 (firstVerdict (x.2 + 1) raw) := by
  simp only [scoreClaims, foldl_place_eq]
  apply List.ext_getElem
  · simp
  · intro i hi hi'
    simp

theorem length_verdicts : (scoreClaims sample claims raw).verdicts.length = claims.length := by
  rw [verdicts_eq, List.length_map, List.length_zipIdx]

/-- The claims a verdict was placed on. -/
theorem countP_answered : (scoreClaims sample claims raw).verdicts.countP (fun v => !v.missing) =
    (raw.foldl (place claims.length) { got := List.replicate claims.length none }).got.countP
      Option.isSome := by
  have hsnd : claims.zipIdx.map Prod.snd = List.range claims.length := by
    rw [List.zipIdx_map_snd, List.range_eq_range']
  rw [verdicts_eq, foldl_place_eq, ← hsnd, List.map_map, List.countP_map, List.countP_map]
  apply List.countP_congr
  intro x _
  simp [claimVerdict]

theorem received_eq : (scoreClaims sample claims raw).verdicts.countP (fun v => !v.missing) +
    (scoreClaims sample claims raw).stray = raw.length := by
  have hcount := foldl_place_count (n := claims.length) raw
    { got := List.replicate claims.length none }
  have hempty : (List.replicate claims.length (none : Option (Bool × String))).countP
      Option.isSome = 0 := by
    rw [List.countP_eq_zero]
    intro o ho
    rw [List.eq_of_mem_replicate ho]
    simp
  rw [countP_answered]
  simp only [hempty] at hcount
  simp only [scoreClaims]
  omega

theorem issued_eq : (scoreClaims sample claims raw).verdicts.countP (fun v => !v.missing) +
    (scoreClaims sample claims raw).missing = claims.length := by
  have hmissing : (scoreClaims sample claims raw).missing =
      (scoreClaims sample claims raw).verdicts.countP ClaimVerdict.missing := by
    simp only [scoreClaims]
  have hsplit := List.length_eq_countP_add_countP ClaimVerdict.missing
    (l := (scoreClaims sample claims raw).verdicts)
  rw [length_verdicts] at hsplit
  rw [hmissing, hsplit, Nat.add_comm]
  congr 1
  apply List.countP_congr
  intro v _
  simp

/-- **Every claim is decided by the first well-formed verdict on it, and the score is the share of
supported claims among those issued.** -/
structure IsGroundScore (sample : ℕ) (claims : List String) (raw : List RawVerdict)
    (g : GroundSample) : Prop where
  /-- one verdict for each claim, in order, decided by the first that has its number -/
  verdicts : g.verdicts =
    claims.zipIdx.map fun x => claimVerdict sample x.2 x.1 (firstVerdict (x.2 + 1) raw)
  inOrder : g.verdicts.map ClaimVerdict.claim = claims
  score : ∃ s, g.score = some s ∧
    s.val = (g.verdicts.countP ClaimVerdict.supported : ℚ) / claims.length
  received : g.verdicts.countP (fun v => !v.missing) + g.stray = raw.length
  issued : g.verdicts.countP (fun v => !v.missing) + g.missing = claims.length
  unanswered : ∀ v ∈ g.verdicts, v.missing = true → v.supported = false

theorem isGroundScore_scoreClaims :
    IsGroundScore sample claims raw (scoreClaims sample claims raw) := by
  constructor
  · exact verdicts_eq
  · rw [verdicts_eq, List.map_map]
    exact List.zipIdx_map_fst 0 claims
  · refine ⟨shareOf ClaimVerdict.supported (scoreClaims sample claims raw).verdicts, ?_, ?_⟩
    · simp only [scoreClaims]
    · simp only [shareOf, length_verdicts]
  · exact received_eq
  · exact issued_eq
  · intro v hv hmissing
    rw [verdicts_eq] at hv
    rcases List.mem_map.1 hv with ⟨x, _, rfl⟩
    simp only [claimVerdict] at hmissing ⊢
    rw [Option.isNone_iff_eq_none.1 hmissing]
    simp

/-- Verdicts with the same first answers, and as many of them, score the same. -/
theorem scoreClaims_congr {raw' : List RawVerdict} (hlen : raw.length = raw'.length)
    (hfirst : ∀ k, firstVerdict k raw = firstVerdict k raw') :
    scoreClaims sample claims raw = scoreClaims sample claims raw' := by
  have hgot : (raw.foldl (place claims.length)
        { got := List.replicate claims.length none }).got =
      (raw'.foldl (place claims.length) { got := List.replicate claims.length none }).got := by
    rw [foldl_place_eq, foldl_place_eq]
    simp only [hfirst]
  have hstray : (raw.foldl (place claims.length)
        { got := List.replicate claims.length none }).stray =
      (raw'.foldl (place claims.length) { got := List.replicate claims.length none }).stray := by
    have h := foldl_place_count (n := claims.length) raw
      { got := List.replicate claims.length none }
    have h' := foldl_place_count (n := claims.length) raw'
      { got := List.replicate claims.length none }
    rw [hgot] at h
    omega
  simp only [scoreClaims, hgot, hstray]

/-- **Grounding scores over the claims issued**, whatever verdicts come back. -/
theorem grounding_over_claims_issued (sample : ℕ) (claims : List String) (hne : claims ≠ [])
    (raw : List RawVerdict) :
    IsGroundScore sample claims raw (scoreClaims sample claims raw) ∧
      (∃ s, (scoreClaims sample claims raw).score = some s ∧
        s.val * claims.length =
          (scoreClaims sample claims raw).verdicts.countP ClaimVerdict.supported) ∧
      ∀ raw', raw.Perm raw' → (raw.filterMap RawVerdict.claim).Nodup →
        scoreClaims sample claims raw' = scoreClaims sample claims raw := by
  refine ⟨isGroundScore_scoreClaims, ?_, ?_⟩
  · rcases isGroundScore_scoreClaims.score with ⟨s, hs, hval⟩
    refine ⟨s, hs, ?_⟩
    have hpos : (claims.length : ℚ) ≠ 0 := by
      exact_mod_cast (List.length_pos_of_ne_nil hne).ne'
    rw [hval, div_mul_cancel₀ _ hpos]
  · intro raw' hperm hnodup
    symm
    exact scoreClaims_congr hperm.length_eq fun k => Answers.first_perm hperm hnodup

/-- Two claims, the second answered first, the first answered twice, and a number nobody issued. -/
theorem grounding_over_claims_issued_sample :
    IsGroundScore 0 ["a", "b"]
      [⟨some 2, some true, ""⟩, ⟨some 1, some false, "no"⟩, ⟨some 1, some true, ""⟩,
        ⟨some 18446744073709551615, some true, ""⟩]
      (scoreClaims 0 ["a", "b"]
        [⟨some 2, some true, ""⟩, ⟨some 1, some false, "no"⟩, ⟨some 1, some true, ""⟩,
          ⟨some 18446744073709551615, some true, ""⟩]) :=
  (grounding_over_claims_issued 0 ["a", "b"] (by simp) _).1

end Score

/-! ## A grounding sample -/

/-- What `ground` scores are claims it issued, and without any there is no score. -/
theorem ground_value {rd : JsonReader} {ps : Prompts} {g : Grounding} {index : ℕ}
    {p : Parsed GroundSample} (h : ground rd ps g index = .ok p) {gs : GroundSample}
    (hgs : p.value = some gs) :
    (gs.score = none ∧ gs.verdicts = []) ∨
      ∃ claims raw, claims ≠ [] ∧ gs = scoreClaims index claims raw := by
  unfold ground at h
  dsimp only at h
  cases hcut : sampleParsed (g.decompose index) ps.buildRepairPrompt
      (ps.decomposePrompt g.output).text (parseClaims rd) with
  | error e =>
    rw [hcut] at h
    exact absurd h (by simp)
  | ok cut =>
    rw [hcut] at h
    dsimp only at h
    rcases hclaims : cut.value with _ | ⟨_ | ⟨c, cs⟩⟩
    · -- the cut stayed unreadable
      rw [hclaims] at h
      injection h with h
      subst h
      exact absurd hgs (by simp [Parsed.absorb])
    · -- no claims: nothing to score
      rw [hclaims] at h
      injection h with h
      subst h
      left
      injection hgs with hgs
      subst hgs
      exact ⟨rfl, rfl⟩
    · rw [hclaims] at h
      dsimp only at h
      cases hchecked : sampleParsed (g.verify index) ps.buildRepairPrompt
          (ps.verifyPrompt g.evidence (c :: cs)).text (parseVerdicts rd) with
      | error e =>
        rw [hchecked] at h
        exact absurd h (by simp)
      | ok checked =>
        rw [hchecked] at h
        injection h with h
        subst h
        right
        rcases Option.map_eq_some_iff.1 hgs with ⟨raw, _, hraw⟩
        exact ⟨c :: cs, raw, by simp, hraw.symm⟩

end LightTrack.Engine
