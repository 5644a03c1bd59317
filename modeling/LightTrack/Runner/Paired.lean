import LightTrack.Runner.Cases
import Mathlib.Analysis.SpecialFunctions.Log.Basic
import Mathlib.Analysis.SpecialFunctions.Pow.Real

/-! # The paired test

`runner/src/stats/paired.rs`: a run is held against the benchmark's floor and, case by case,
against the previous run; two targets of one run are held against each other.

* `verdict_status_of_regressed` : paired evidence takes no regression back,
* `superiority_antisymm` : of two targets at most one is significantly ahead,
* `pairedEvidence_sound` : with the pairing itself, what paired evidence keeps to.
-/

namespace LightTrack.Stats

/-! ## Statistics over per-case scores

`runner/src/stats.rs` and `runner/src/stats/normal.rs`, in exact arithmetic: the summary of a
sample, the normal distribution as the code approximates it and the Bonferroni correction.
Scores are rational, what is computed from them is real.
-/

def EPS : ℚ := 1 / 10 ^ 9

/-- Family-wise significance level. -/
def ALPHA : ℚ := 1 / 20

/-- Sample summary of a set of per-case scores. -/
structure Summary where
  n : ℕ
  mean : ℝ
  stdev : ℝ
  stderr : ℝ

noncomputable def mean (xs : List ℚ) : ℝ := ((xs.sum / xs.length : ℚ) : ℝ)

namespace Summary

/-- `Summary::of`. -/
noncomputable def of (xs : List ℚ) : Summary :=
  match xs.length with
  | 0 => ⟨0, 0, 0, 0⟩
  | 1 => ⟨1, Stats.mean xs, 0, 0⟩
  | n =>
    let var := (xs.map fun x : ℚ => ((x : ℝ) - Stats.mean xs) ^ 2).sum / (n - 1)
    ⟨n, Stats.mean xs, √var, √var / √n⟩

end Summary

/-! ## The normal distribution -/

/-- A test statistic: the stderr of a perfectly consistent change is zero, and its `z` infinite. -/
inductive ZScore where
  | finite (z : ℝ)
  | infinite (positive : Bool)

/-- Error function, Abramowitz & Stegun 7.1.26. -/
noncomputable def erf (x : ℝ) : ℝ :=
  let sign : ℝ := if x < 0 then -1 else 1
  let x := |x|
  let t := 1 / (1 + 0.3275911 * x)
  let poly := [0.254829592, -0.284496736, 1.421413741, -1.453152027, 1.061405429].foldr
    (fun a acc => (acc + a) * t) 0
  sign * (1 - poly * Real.exp (-x * x))

/-- Φ(z). -/
noncomputable def normCdf (z : ℝ) : ℝ := 0.5 * (1 + erf (z / √2))

/-- `P(|Z| ≥ |z|)`. -/
noncomputable def twoSidedP : ZScore → ℝ
  | .finite z => min 1 (max 0 (2 * (1 - normCdf |z|)))
  -- the error function is one at infinity
  | .infinite _ => 0

/-- A polynomial by its coefficients, the highest first. -/
noncomputable def horner (coefficients : List ℝ) (x : ℝ) : ℝ :=
  coefficients.foldl (fun acc a => acc * x + a) 0

/-- Φ⁻¹(p), Acklam's rational approximation, saturating outside `(0, 1)`. -/
noncomputable def zQuantile (p : ℝ) : ZScore :=
  let a : List ℝ := [-3.969683028665376e1, 2.209460984245205e2, -2.759285104469687e2,
    1.38357751867269e2, -3.066479806614716e1, 2.506628277459239e0]
  let b : List ℝ := [-5.447609879822406e1, 1.615858368580409e2, -1.556989798598866e2,
    6.680131188771972e1, -1.328068155288572e1]
  let c : List ℝ := [-7.784894002430293e-3, -3.223964580411365e-1, -2.400758277161838e0,
    -2.549732539343734e0, 4.374664141464968e0, 2.938163982698783e0]
  let d : List ℝ := [7.784695709041462e-3, 3.224671290700398e-1, 2.445134137142996e0,
    3.754408661907416e0]
  let pLow : ℝ := 0.02425
  if p ≤ 0 then .infinite false
  else if 1 ≤ p then .infinite true
  else if p < pLow then
    let q := √(-2 * Real.log p)
    .finite (horner c q / horner (d ++ [1]) q)
  else if 1 - pLow < p then
    let q := √(-2 * Real.log (1 - p))
    .finite (-(horner c q) / horner (d ++ [1]) q)
  else
    let q := p - 0.5
    let r := q * q
    .finite (horner a r * q / horner (b ++ [1]) r)

/-- The per-comparison α left after correcting for `m` comparisons. -/
def bonferroniAlpha (alpha : ℚ) (m : ℕ) : ℚ := alpha / max m 1

/-- Critical two-sided z at family-wise α across `m` comparisons. -/
noncomputable def bonferroniZ (alpha : ℚ) (m : ℕ) : ZScore :=
  zQuantile (1 - bonferroniAlpha alpha m / 2)

inductive RunStatus where
  | regressed
  | passed
  | noBaseline
  deriving DecidableEq

/-- The strongest test that ran. -/
inductive TestMethod where
  | pairedZ
  | unpairedCi
  | scalar
  | none
  deriving DecidableEq

/-- The limitations a verdict discloses, with what their texts report. -/
inductive Caveat where
  | scalarFallback (n : ℕ)
  | baselineIsConstant
  | subset (retained dropped : ℕ)
  | previewLimited
  | doesNotGate
  | noComparableRun
  | familyWise (m : ℕ) (alpha : ℚ) (zCrit : ZScore)

/-- A run's verdict, with the evidence that produced it. -/
structure SigVerdict where
  status : RunStatus
  method : TestMethod
  scalarFallback : Bool
  alpha : ℚ
  comparisons : ℕ
  pValue : Option ℝ
  meanDelta : Option ℝ
  pairedCases : Option ℕ
  pairedDropped : Option ℕ
  caveats : List Caveat

/-- What the by-case pairing produced. -/
structure PairedEvidence where
  pairing : PairedByCase
  previewLimited : Bool

open Classical in
/-- `paired_z`: the mean of the deltas, its `z` and the two-sided `p`. -/
noncomputable def pairedZ (deltas : List ℚ) : Option (ℝ × ZScore × ℝ) :=
  let s := Summary.of deltas
  if s.n < 2 then none
  else
    let z : ZScore :=
      if 0 < s.stderr then .finite (s.mean / s.stderr)
      else if (EPS : ℝ) < |s.mean| then .infinite (decide (0 < s.mean))
      else .finite 0
    some (s.mean, z, twoSidedP z)

namespace SigVerdict

def pushCaveat (v : SigVerdict) (c : Caveat) : SigVerdict := { v with caveats := v.caveats ++ [c] }

/-- Whether the whole confidence interval is below `b`. -/
def ciBelow (s : Summary) (b : ℝ) : ZScore → Prop
  | .finite z => s.mean + z * s.stderr + EPS < b
  | .infinite positive => positive = false ∧ 0 < s.stderr

open Classical in
/-- The test against the benchmark's absolute floor. -/
noncomputable def absoluteFloor (baseline : Option ℝ) (s : Summary) (zCrit : ZScore)
    (v : SigVerdict) : SigVerdict :=
  match baseline with
  | none => v
  | some b =>
    let v :=
      if s.n < 2 then
        { v with
          scalarFallback := true
          method := .scalar
          status := if s.mean + EPS < b then .regressed else .passed }.pushCaveat
            (.scalarFallback s.n)
      else
        { v with
          method := .unpairedCi
          status := if ciBelow s b zCrit then .regressed else .passed }
    v.pushCaveat .baselineIsConstant

open Classical in
/-- The paired test against the previous comparable run. -/
noncomputable def pairedDrop (baseline : Option ℝ) (ev : Option PairedEvidence) (alpha : ℚ)
    (v : SigVerdict) : SigVerdict :=
  match ev.bind fun e => (pairedZ e.pairing.deltas).map fun z => (e, z) with
  | some (e, meanDelta, _, p) =>
    let v :=
      { v with
        method := .pairedZ
        meanDelta := some meanDelta
        pValue := some p
        pairedCases := some e.pairing.retained
        pairedDropped := some e.pairing.dropped
        status :=
          if baseline.isSome ∧ meanDelta < 0 ∧ p < alpha then .regressed else v.status }
    let v :=
      if e.pairing.isSubset then v.pushCaveat (.subset e.pairing.retained e.pairing.dropped) else v
    let v := if e.previewLimited then v.pushCaveat .previewLimited else v
    if baseline.isNone then v.pushCaveat .doesNotGate else v
  | none => if baseline.isSome then v.pushCaveat .noComparableRun else v

end SigVerdict

/-- The run verdict: `regressed` if the floor or the paired test says so. -/
noncomputable def verdict (baseline : Option ℝ) (s : Summary) (ev : Option PairedEvidence)
    (m : ℕ) : SigVerdict :=
  let alpha := bonferroniAlpha ALPHA m
  let zCrit := bonferroniZ ALPHA m
  let v : SigVerdict :=
    { status := .noBaseline
      method := .none
      scalarFallback := false
      alpha
      comparisons := m
      pValue := none
      meanDelta := none
      pairedCases := none
      pairedDropped := none
      caveats := [] }
  let v := (v.absoluteFloor baseline s zCrit).pairedDrop baseline ev alpha
  if 1 < m then v.pushCaveat (.familyWise m alpha zCrit) else v

/-- A tested "B beats A", with the sample it rests on. -/
structure Superiority where
  meanDelta : ℝ
  p : ℝ
  significant : Bool
  retained : ℕ
  dropped : ℕ

open Classical in
/-- Is the gap between two targets real? -/
noncomputable def superiority (top runnerUp : List CaseScore) (nTargets : ℕ) :
    Except Unpairable Superiority :=
  match pairedDeltasByCase top runnerUp with
  | .error e => .error e
  | .ok pairing =>
    match pairedZ pairing.deltas with
    | none => .error (.tooFewShared pairing.retained)
    | some (meanDelta, _, p) =>
      let pairs := nTargets * (nTargets - 1) / 2
      .ok
        { meanDelta
          p
          significant := decide (0 < meanDelta ∧ p < bonferroniAlpha ALPHA (max pairs 1))
          retained := pairing.retained
          dropped := pairing.dropped }

/-! ## What a verdict rests on -/

namespace SigVerdict

@[simp] theorem pushCaveat_status (v : SigVerdict) (c : Caveat) :
    (v.pushCaveat c).status = v.status := rfl

/-- Without evidence the paired test leaves the status. -/
theorem pairedDrop_none_status (baseline : Option ℝ) (alpha : ℚ) (v : SigVerdict) :
    (v.pairedDrop baseline none alpha).status = v.status := by
  unfold pairedDrop
  rw [Option.bind_none]
  simp only
  split_ifs
  · rfl
  · rfl

/-- With evidence it can only add a regression, and only where there is a baseline. -/
theorem pairedDrop_status (baseline : Option ℝ) (ev : Option PairedEvidence) (alpha : ℚ)
    (v : SigVerdict) :
    (v.pairedDrop baseline ev alpha).status = v.status ∨
      baseline.isSome = true ∧ (v.pairedDrop baseline ev alpha).status = .regressed := by
  unfold pairedDrop
  cases hev : ev.bind fun e => (pairedZ e.pairing.deltas).map fun z => (e, z) with
  | none =>
    simp only
    split_ifs
    · exact Or.inl rfl
    · exact Or.inl rfl
  | some found =>
    rcases found with ⟨e, meanDelta, z, p⟩
    simp only
    by_cases hdrop : baseline.isSome ∧ meanDelta < 0 ∧ p < alpha
    · refine Or.inr ⟨hdrop.1, ?_⟩
      rw [if_pos hdrop]
      split_ifs <;> rfl
    · refine Or.inl ?_
      rw [if_neg hdrop]
      split_ifs <;> rfl

end SigVerdict

theorem verdict_status (baseline : Option ℝ) (s : Summary) (ev : Option PairedEvidence) (m : ℕ) :
    (verdict baseline s ev m).status = (verdict baseline s none m).status ∨
      baseline.isSome = true ∧ (verdict baseline s ev m).status = .regressed := by
  unfold verdict
  simp only
  split_ifs
  · rw [SigVerdict.pushCaveat_status, SigVerdict.pushCaveat_status,
      SigVerdict.pairedDrop_none_status]
    exact SigVerdict.pairedDrop_status ..
  · rw [SigVerdict.pairedDrop_none_status]
    exact SigVerdict.pairedDrop_status ..

/-- Paired evidence takes no regression back. -/
theorem verdict_status_of_regressed {baseline : Option ℝ} {s : Summary} {m : ℕ}
    (h : (verdict baseline s none m).status = .regressed) (ev : Option PairedEvidence) :
    (verdict baseline s ev m).status = .regressed := by
  rcases verdict_status baseline s ev m with hsame | ⟨-, hdrop⟩
  · rw [hsame, h]
  · exact hdrop

/-- Without a baseline it changes nothing. -/
theorem verdict_status_of_none (s : Summary) (ev : Option PairedEvidence) (m : ℕ) :
    (verdict none s ev m).status = (verdict none s none m).status := by
  rcases verdict_status none s ev m with hsame | ⟨hsome, -⟩
  · exact hsame
  · exact nomatch hsome

/-! ## Superiority -/

theorem mean_neg (xs : List ℚ) : mean (xs.map fun x => -x) = -mean xs := by
  have hsum : (xs.map fun x => -x).sum = -xs.sum := (List.sum_neg xs).symm
  unfold mean
  rw [hsum, List.length_map, neg_div, Rat.cast_neg]

theorem summary_mean {xs : List ℚ} (h : 2 ≤ (Summary.of xs).n) :
    (Summary.of xs).mean = mean xs := by
  unfold Summary.of at h ⊢
  rcases hlen : xs.length with _ | _ | n
  · rw [hlen] at h
    exact absurd h (Nat.not_succ_le_zero 1)
  · rw [hlen] at h
    exact absurd h (Nat.lt_irrefl 1)
  · rfl

theorem pairedZ_mean {deltas : List ℚ} {d p : ℝ} {z : ZScore} (h : pairedZ deltas = some (d, z, p)) :
    d = mean deltas := by
  unfold pairedZ at h
  simp only at h
  split_ifs at h with hn
  · rw [← summary_mean (not_lt.1 hn)]
    exact (congrArg Prod.fst (Option.some.inj h)).symm
  · rw [← summary_mean (not_lt.1 hn)]
    exact (congrArg Prod.fst (Option.some.inj h)).symm
  · rw [← summary_mean (not_lt.1 hn)]
    exact (congrArg Prod.fst (Option.some.inj h)).symm

/-- The gap between two targets is the mean of their differences, and a significant one is
positive. -/
theorem superiority_meanDelta {a b : List CaseScore} {n : ℕ} {s : Superiority}
    (h : superiority a b n = .ok s) : ∃ p, pairedDeltasByCase a b = .ok p ∧
      s.meanDelta = mean p.deltas ∧ (s.significant = true → 0 < s.meanDelta) := by
  unfold superiority at h
  cases hpair : pairedDeltasByCase a b with
  | error e =>
    rw [hpair] at h
    exact nomatch h
  | ok p =>
    rw [hpair] at h
    simp only at h
    cases hz : pairedZ p.deltas with
    | none =>
      rw [hz] at h
      exact nomatch h
    | some found =>
      rcases found with ⟨d, z, pv⟩
      rw [hz] at h
      simp only at h
      rw [← Except.ok.inj h]
      refine ⟨p, rfl, pairedZ_mean hz, fun hsig => ?_⟩
      exact (of_decide_eq_true hsig).1

/-- Of two targets at most one is significantly ahead. -/
theorem superiority_antisymm {a b : List CaseScore} {n m : ℕ} {s s' : Superiority}
    (h : superiority a b n = .ok s) (h' : superiority b a m = .ok s') :
    ¬ (s.significant = true ∧ s'.significant = true) := by
  rcases superiority_meanDelta h with ⟨p, hp, hmean, hpos⟩
  rcases superiority_meanDelta h' with ⟨p', hp', hmean', hpos'⟩
  rw [pairedDeltasByCase_swap, hp] at hp'
  have hswap : p'.deltas = p.deltas.map fun d => -d :=
    congrArg PairedByCase.deltas (Except.ok.inj hp').symm
  rw [hswap, mean_neg, ← hmean] at hmean'
  intro hboth
  have := hpos hboth.1
  have := hpos' hboth.2
  linarith

/-! ## Paired evidence -/

/-- What paired evidence keeps to. -/
structure PairedEvidenceSound : Prop where
  order : ∀ run run' baseline baseline', run.Perm run' → baseline.Perm baseline' →
    pairedDeltasByCase run baseline = pairedDeltasByCase run' baseline'
  sets : ∀ run run' baseline baseline' p p', (∀ c, c ∈ run ↔ c ∈ run') →
    (∀ c, c ∈ baseline ↔ c ∈ baseline') → pairedDeltasByCase run baseline = .ok p →
    pairedDeltasByCase run' baseline' = .ok p' → p = p'
  succeeds : ∀ run baseline, (∃ p, pairedDeltasByCase run baseline = .ok p) ↔
    run ≠ [] ∧ baseline ≠ [] ∧ (run.map CaseScore.case).Nodup ∧
      (baseline.map CaseScore.case).Nodup ∧ 2 ≤ (shared run baseline).length
  deltas : ∀ run baseline p, pairedDeltasByCase run baseline = .ok p →
    p.deltas = (shared run baseline).map (fun c => scoreAt run c - scoreAt baseline c) ∧
      p.retained = (shared run baseline).length ∧
      p.retained + p.dropped = (caseSet run ∪ caseSet baseline).card
  swap : ∀ run baseline, pairedDeltasByCase baseline run =
    (pairedDeltasByCase run baseline).map PairedByCase.swap
  antisymm : ∀ a b n s s', superiority a b n = .ok s → superiority b a n = .ok s' →
    ¬ (s.significant = true ∧ s'.significant = true)
  adds : ∀ baseline s m ev, (verdict baseline s none m).status = .regressed →
    (verdict baseline s ev m).status = .regressed
  noBaseline : ∀ s m ev, (verdict none s ev m).status = (verdict none s none m).status

/-- **Paired evidence is by case, symmetric, and only adds detection.** -/
theorem pairedEvidence_sound : PairedEvidenceSound := by
  refine ⟨?_, ?_, ?_, ?_, pairedDeltasByCase_swap, ?_, ?_, ?_⟩
  · intro run run' baseline baseline' hr hb
    exact pairedDeltasByCase_perm hr hb
  · intro run run' baseline baseline' p p' hr hb hp hp'
    exact pairedDeltasByCase_of_mem_iff hr hb hp hp'
  · intro run baseline
    constructor
    · intro h
      rcases h with ⟨p, hp⟩
      exact (pairedDeltasByCase_eq_ok_iff.1 hp).1
    · intro h
      refine ⟨⟨_, _, (caseSet run ∪ caseSet baseline).card - (shared run baseline).length⟩,
        pairedDeltasByCase_eq_ok_iff.2 ⟨h, rfl, rfl, ?_⟩⟩
      exact Nat.add_sub_cancel' (length_shared_le run baseline)
  · intro run baseline p hp
    exact (pairedDeltasByCase_eq_ok_iff.1 hp).2
  · intro a b n s s' h h'
    exact superiority_antisymm h h'
  · intro baseline s m ev h
    exact verdict_status_of_regressed h ev
  · intro s m ev
    exact verdict_status_of_none s ev m

end LightTrack.Stats
