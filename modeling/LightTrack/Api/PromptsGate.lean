import LightTrack.Core.Event
import Mathlib.Algebra.Order.Field.Rat
import Mathlib.Algebra.Order.Round
import Mathlib.Data.Rat.Floor

/-! # The promotion gate

Whether a label may be pointed at a prompt version, judged on one run of the linked benchmark.
`scoredRun` picks the run, `evidenceOf` reads it, and `gatePromotion` decides.

* `scoredRun_tagged`, `scoredRun_legacy` : which run is picked,
* `gatePromotion_allows` : what an allowed promotion without `force` has passed,
* `promotion_evidence` : what is true of the run an allowed promotion relied on.
-/

namespace LightTrack

/-- What the gate reads of a benchmark run. -/
structure BenchmarkRun where
  id : String
  finishedAt : Option Time
  meanScore : Option ℚ
  status : String
  report : Json

/-- `RESOLVED_PROMPT_VERSION`. -/
def RESOLVED_PROMPT_VERSION : String := "resolved_prompt_version"

/-- `EPS`. -/
def EPS : ℚ := 1 / 1000000000

/-- `{q:.3}`: three decimals, ties to even. -/
def fixed3 (q : ℚ) : String :=
  let scaled := |q| * 1000
  let low := ⌊scaled⌋.toNat
  let rest := scaled - low
  let n := if rest < 1 / 2 then low else if 1 / 2 < rest then low + 1 else low + low % 2
  let frac := toString (n % 1000)
  (if q < 0 then "-" else "") ++ toString (n / 1000) ++ "." ++
    String.ofList (List.replicate (3 - frac.length) '0') ++ frac

inductive GateOutcome
  | allow
  | allowWithWarning (warning : String)
  | block (reason : String)
deriving DecidableEq

/-- The refusal reason, when this is a block. -/
def GateOutcome.blocked : GateOutcome → Option String
  | .block r => some r
  | _ => none

/-- What the gate knows about the run that scored the version being promoted. -/
structure GateEvidence where
  mean : Option ℚ := none
  ciUpper : Option ℚ := none
  runnerRegressed : Bool := false
  incomplete : Option String := none
  resolvedVersion : Option UInt32 := none
deriving DecidableEq

/-! ## The run -/

/-- A status of a run that did not cover its case set. -/
def incompleteOf : String → Option String
  | "cancelled" => some "cancelled"
  | "partial" => some "halted by the run budget ceiling"
  | "aborted" => some "aborted"
  | _ => none

namespace BenchmarkRun

/-- The run is tagged with a prompt and a version. -/
def scores (promptId : String) (version : UInt32) (r : BenchmarkRun) : Bool :=
  r.report.getStr "prompt_id" == some promptId &&
    (r.report.get "prompt_version").bind Json.asU64 == some version.toNat

/-- The version the run reports to have generated with. -/
def resolved (r : BenchmarkRun) : Option ℕ :=
  (r.report.get RESOLVED_PROMPT_VERSION).bind Json.asU64

end BenchmarkRun

/-- The order of `finished_at`, where no time comes first. -/
def finishedLe (a b : BenchmarkRun) : Bool :=
  match a.finishedAt, b.finishedAt with
  | none, _ => true
  | some _, none => false
  | some t, some u => decide (t ≤ u)

/-- The run that `version_scored_run` picks: of those tagged with the version the newest that was
scored, and without any tagged run the first that was scored. -/
def scoredRun (runs : List BenchmarkRun) (promptId : String) (version : UInt32) :
    Option BenchmarkRun :=
  let tagged := runs.filter (BenchmarkRun.scores promptId version)
  if tagged.isEmpty then runs.find? fun r => r.meanScore.isSome
  else (tagged.mergeSort finishedLe).reverse.find? fun r => r.meanScore.isSome

section

-- the value of a JSON number as an `f64`
variable (f64Of : JsonNumber → ℚ)

/-- `Value::as_f64`. -/
def asF64 : Json → Option ℚ
  | .num n => some (f64Of n)
  | _ => none

/-- `evidence_of`. The resolved version is narrowed to 32 bits. -/
def evidenceOf (run : BenchmarkRun) : GateEvidence where
  mean := run.meanScore
  ciUpper := (((run.report.get "ci95").bind Json.asArray).bind fun a => a[1]?).bind (asF64 f64Of)
  runnerRegressed := run.status == "regressed"
  incomplete := incompleteOf run.status
  resolvedVersion := run.resolved.map UInt32.ofNat

/-- `version_scored_run`. -/
def versionScoredRun (runs : List BenchmarkRun) (promptId : String) (version : UInt32) :
    Option GateEvidence :=
  (scoredRun runs promptId version).map (evidenceOf f64Of)

end

/-! ## The decision -/

/-- The "did the run see its target?" half. -/
def resolutionRefusal (latest : Option GateEvidence) (promoting : UInt32) : Option String :=
  let v := toString promoting.toNat
  match latest with
  | none =>
    some ("promotion blocked: the linked benchmark has no run that scored version " ++ v ++
      " yet (run it before promoting, or pass force=true)")
  | some ev =>
    match ev.resolvedVersion with
    | some r =>
      if r = promoting then none
      else
        some ("promotion blocked: the benchmark run backing this promotion generated with prompt " ++
          "version " ++ toString r.toNat ++ ", not the version " ++ v ++
          " being promoted — its score is evidence about " ++
          "different content (re-run the benchmark for v" ++ v ++ ", or pass force=true)")
    | none =>
      some ("promotion blocked: the benchmark run backing this promotion reports no " ++
        "`" ++ RESOLVED_PROMPT_VERSION ++ "`, so it never fetched version " ++ v ++
        "'s content and " ++
        "its score says nothing about it. Re-run the benchmark with a worker that resolves " ++
        "prompt refs, or pass force=true.")

/-- The "is the score good enough?" half. -/
def regressionRefusal (latest : Option GateEvidence) (baseline : Option ℚ) : Option String :=
  let unscored := some ("promotion blocked: linked benchmark has no scored run yet (run it before " ++
    "promoting, or pass force=true)")
  match baseline with
  | none => none
  | some baseline =>
    match latest with
    | none => unscored
    | some ev =>
      match ev.mean with
      | none => unscored
      | some mean =>
        if ev.runnerRegressed then
          some ("promotion blocked: the benchmark run that scored this version reported status " ++
            "'regressed' (mean " ++ fixed3 mean ++ " vs baseline " ++ fixed3 baseline ++
            ") (pass force=true to override)")
        else
          match ev.incomplete with
          | some why =>
            some ("promotion blocked: the benchmark run that scored this version is incomplete (" ++
              why ++ ") — " ++ "its mean " ++ fixed3 mean ++
              " covers only the cases that ran (pass force=true to override, or " ++
              "re-run the benchmark to completion)")
          | none =>
            match ev.ciUpper with
            | some upper =>
              if upper + EPS < baseline then
                some ("promotion blocked: benchmark mean " ++ fixed3 mean ++ " (95% CI upper " ++
                  fixed3 upper ++ ") is significantly " ++ "below baseline " ++ fixed3 baseline ++
                  " (pass force=true to override)")
              else none
            | none =>
              if mean + EPS < baseline then
                some ("promotion blocked: benchmark mean " ++ fixed3 mean ++
                  " regressed below baseline " ++ fixed3 baseline ++ " " ++
                  "(no confidence interval recorded — scalar compare) " ++
                  "(pass force=true to override)")
              else none

/-- The warning of a promotion on a benchmark that cannot resolve the prompt. -/
def advisory (promoting : UInt32) : String :=
  "promoted without a resolved-version check: the linked benchmark has no target with a " ++
    "`prompt_ref`, so its runs generate from each target's stored `system_prompt` and " ++
    "cannot certify version " ++ toString promoting.toNat ++
    "'s content. Add a `prompt_ref` to the benchmark's " ++
    "targets to gate on what actually ran."

/-- `gate_promotion`. -/
def gatePromotion (latest : Option GateEvidence) (baseline : Option ℚ) (force : Bool)
    (promoting : UInt32) (resolvable : Bool) (trustRefusal : Option String) : GateOutcome :=
  match trustRefusal with
  | some reason => .block reason
  | none =>
    if force then .allow
    else
      match if resolvable then resolutionRefusal latest promoting else none with
      | some reason => .block reason
      | none =>
        match regressionRefusal latest baseline with
        | some reason => .block reason
        | none => if resolvable then .allow else .allowWithWarning (advisory promoting)

/-! ## What an allowed promotion relied on -/

section

variable {runs runs' : List BenchmarkRun} {promptId : String} {version : UInt32}
  {run : BenchmarkRun}

/-- The picked run is one of the runs, and it was scored. -/
theorem scoredRun_mem (h : scoredRun runs promptId version = some run) :
    run ∈ runs ∧ run.meanScore.isSome := by
  unfold scoredRun at h
  simp only at h
  split at h
  · exact ⟨List.mem_of_find?_eq_some h, by simpa using List.find?_some h⟩
  · have hmem := List.mem_mergeSort.1 (List.mem_reverse.1 (List.mem_of_find?_eq_some h))
    exact ⟨(List.mem_filter.1 hmem).1, by simpa using List.find?_some h⟩

/-- Once a run is tagged with the version, the picked run is. -/
theorem scoredRun_tagged (h : scoredRun runs promptId version = some run)
    (htagged : ∃ r ∈ runs, r.scores promptId version = true) :
    run.scores promptId version = true := by
  unfold scoredRun at h
  simp only at h
  split at h
  · rename_i hempty
    rcases htagged with ⟨r, hr, hscores⟩
    rw [List.isEmpty_iff, List.filter_eq_nil_iff] at hempty
    exact absurd hscores (hempty r hr)
  · have hmem := List.mem_mergeSort.1 (List.mem_reverse.1 (List.mem_of_find?_eq_some h))
    exact (List.mem_filter.1 hmem).2

/-- Without a run tagged with the version, the first run that was scored is picked. -/
theorem scoredRun_legacy (h : ∀ r ∈ runs, r.scores promptId version = false) :
    scoredRun runs promptId version = runs.find? fun r => r.meanScore.isSome := by
  have hnil : runs.filter (BenchmarkRun.scores promptId version) = [] := by
    rw [List.filter_eq_nil_iff]
    intro r hr
    simp [h r hr]
  unfold scoredRun
  rw [hnil]
  rfl

/-- Once a run is tagged with the version, only the runs so tagged matter. -/
theorem scoredRun_congr
    (h : runs'.filter (BenchmarkRun.scores promptId version) =
      runs.filter (BenchmarkRun.scores promptId version))
    (htagged : ∃ r ∈ runs, r.scores promptId version = true) :
    scoredRun runs' promptId version = scoredRun runs promptId version := by
  have hne : (runs.filter (BenchmarkRun.scores promptId version)).isEmpty = false := by
    rcases htagged with ⟨r, hr, hscores⟩
    rw [List.isEmpty_eq_false_iff_exists_mem]
    exact ⟨r, List.mem_filter.2 ⟨hr, hscores⟩⟩
  unfold scoredRun
  simp only [h, hne, Bool.false_eq_true, if_false]

end

/-- The refusal of the score half says nothing only about a scored and complete run that the runner
did not call regressed. -/
theorem regressionRefusal_eq_none {latest : Option GateEvidence} {baseline : ℚ}
    (h : regressionRefusal latest (some baseline) = none) :
    ∃ ev, latest = some ev ∧ ev.mean.isSome ∧ ev.runnerRegressed = false ∧ ev.incomplete = none := by
  cases latest with
  | none => simp [regressionRefusal] at h
  | some ev =>
    refine ⟨ev, rfl, ?_⟩
    cases hmean : ev.mean with
    | none => simp [regressionRefusal, hmean] at h
    | some mean =>
      cases hregressed : ev.runnerRegressed with
      | true => simp [regressionRefusal, hmean, hregressed] at h
      | false =>
        cases hincomplete : ev.incomplete with
        | some why => simp [regressionRefusal, hmean, hregressed, hincomplete] at h
        | none => exact ⟨rfl, rfl, rfl⟩

theorem resolutionRefusal_eq_none {latest : Option GateEvidence} {promoting : UInt32}
    (h : resolutionRefusal latest promoting = none) :
    ∃ ev, latest = some ev ∧ ev.resolvedVersion = some promoting := by
  cases latest with
  | none => simp [resolutionRefusal] at h
  | some ev =>
    refine ⟨ev, rfl, ?_⟩
    cases hresolved : ev.resolvedVersion with
    | none => simp [resolutionRefusal, hresolved] at h
    | some r =>
      by_cases hr : r = promoting
      · rw [hr]
      · simp [resolutionRefusal, hresolved, hr] at h

/-- An allowed promotion without `force` has passed both halves. -/
theorem gatePromotion_allows {latest : Option GateEvidence} {baseline : Option ℚ}
    {promoting : UInt32} {resolvable : Bool} {trust : Option String}
    (h : (gatePromotion latest baseline false promoting resolvable trust).blocked = none) :
    (resolvable = true → resolutionRefusal latest promoting = none) ∧
      regressionRefusal latest baseline = none := by
  unfold gatePromotion at h
  cases trust with
  | some reason => simp [GateOutcome.blocked] at h
  | none =>
    simp only [Bool.false_eq_true, if_false] at h
    split at h
    · simp [GateOutcome.blocked] at h
    · rename_i hresolution
      split at h
      · simp [GateOutcome.blocked] at h
      · rename_i hregression
        refine ⟨fun hresolvable => ?_, hregression⟩
        rw [if_pos hresolvable] at hresolution
        exact hresolution

theorem incompleteOf_eq_none {status : String} (h : incompleteOf status = none) :
    status ≠ "cancelled" ∧ status ≠ "partial" ∧ status ≠ "aborted" := by
  refine ⟨?_, ?_, ?_⟩ <;> rintro rfl <;> cases h

/-- **Promotion evidence.**  A promotion that is allowed without `force` against a baseline relied on
a run that was scored, that the runner did not call regressed, and that was not cut short; on one
tagged with the promoted version if there is any, and on the first scored run if there is none; and
on one that resolved a version, where the benchmark can.  Once a run is tagged with the promoted
version, the other runs change nothing. -/
theorem promotion_evidence (f64Of : JsonNumber → ℚ) (runs : List BenchmarkRun) (promptId : String)
    (version : UInt32) (baseline : ℚ) (resolvable : Bool) (trust : Option String) :
    ((gatePromotion (versionScoredRun f64Of runs promptId version) (some baseline) false version
        resolvable trust).blocked = none →
      ∃ run ∈ runs, scoredRun runs promptId version = some run ∧ run.meanScore.isSome ∧
        run.status ≠ "regressed" ∧ run.status ≠ "cancelled" ∧ run.status ≠ "partial" ∧
        run.status ≠ "aborted" ∧
        ((∃ r ∈ runs, r.scores promptId version = true) → run.scores promptId version = true) ∧
        ((∀ r ∈ runs, r.scores promptId version = false) →
          runs.find? (fun r => r.meanScore.isSome) = some run) ∧
        (resolvable = true → ∃ v, run.resolved = some v ∧ (v < 2 ^ 32 → v = version.toNat))) ∧
    ∀ runs' : List BenchmarkRun, runs'.filter (BenchmarkRun.scores promptId version) =
        runs.filter (BenchmarkRun.scores promptId version) →
      (∃ r ∈ runs, r.scores promptId version = true) →
      gatePromotion (versionScoredRun f64Of runs' promptId version) (some baseline) false version
          resolvable trust =
        gatePromotion (versionScoredRun f64Of runs promptId version) (some baseline) false version
          resolvable trust := by
  constructor
  · intro hallow
    -- each refusal that was not made tells one thing about the run
    rcases gatePromotion_allows hallow with ⟨hresolution, hregression⟩
    rcases regressionRefusal_eq_none hregression with ⟨ev, hev, hmean, hregressed, hincomplete⟩
    rcases Option.map_eq_some_iff.1 hev with ⟨run, hrun, rfl⟩
    rcases scoredRun_mem hrun with ⟨hmem, hscored⟩
    rcases incompleteOf_eq_none hincomplete with ⟨hcancelled, hpartial, haborted⟩
    have hnotregressed : run.status ≠ "regressed" := by simpa [evidenceOf] using hregressed
    refine ⟨run, hmem, hrun, hscored, hnotregressed, hcancelled, hpartial, haborted,
      scoredRun_tagged hrun, fun hnone => ?_, fun hresolvable => ?_⟩
    · rw [← scoredRun_legacy hnone]
      exact hrun
    · -- the evidence of both refusals is that of one run
      rcases resolutionRefusal_eq_none (hresolution hresolvable) with ⟨ev', hev', hresolved⟩
      rw [hev] at hev'
      rw [← Option.some.inj hev'] at hresolved
      rcases Option.map_eq_some_iff.1 hresolved with ⟨v, hv, hversion⟩
      refine ⟨v, hv, fun hlt => ?_⟩
      rw [← hversion, UInt32.toNat_ofNat_of_lt' hlt]
  · intro runs' hsame htagged
    unfold versionScoredRun
    rw [scoredRun_congr hsame htagged]

/-- A passed run of prompt `p1`, tagged with a version. -/
def BenchmarkRun.sample (id : String) (version : Int) (mean : Option ℚ) : BenchmarkRun where
  id := id
  finishedAt := some 0
  meanScore := mean
  status := "passed"
  report := .obj [("prompt_id", .str "p1"), ("prompt_version", .num (.int version))]

/-- A promotion on a run of its own version. -/
theorem promotion_evidence_sample :
    ∃ run ∈ [BenchmarkRun.sample "r1" 2 (some (9 / 10))], run.scores "p1" 2 = true := by
  have hevidence := promotion_evidence (fun _ => 0) [.sample "r1" 2 (some (9 / 10))] "p1" 2 (4 / 5)
    false none
  rcases hevidence.1 (by decide +kernel) with ⟨run, hmem, -, -, -, -, -, -, htagged, -, -⟩
  exact ⟨run, hmem, htagged ⟨_, List.mem_singleton_self _, by decide +kernel⟩⟩

/-- Of a benchmark whose only run is tagged with version 1 and unscored, version 2 is refused.  With
a scored run of version 1 added it is allowed, and the run it relied on is that one. -/
theorem other_version_promotes :
    let unscored := BenchmarkRun.sample "r1" 1 none
    let scored := BenchmarkRun.sample "r2" 1 (some (9 / 10))
    let gate (runs : List BenchmarkRun) :=
      gatePromotion (versionScoredRun (fun _ => 0) runs "p1" 2) (some (4 / 5)) false 2 false none
    (gate [unscored]).blocked.isSome ∧ (gate [unscored, scored]).blocked = none ∧
      (scoredRun [unscored, scored] "p1" 2).map (fun r => (r.id, r.scores "p1" 2, r.scores "p1" 1)) =
        some ("r2", false, true) := by
  decide +kernel

end LightTrack
