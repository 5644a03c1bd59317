import LightTrack.Collective.Merge
import LightTrack.Core.Pricing
import Mathlib.Data.Int.Log

/-! # What a hub believes of a contributed entry

`sanitizeEntry` normalises the identity of an entry, clamps its tags and figures, and refuses the
malformed and the implausible.  A figure may not be finite on the wire; everything after the check is.
-/

namespace LightTrack

/-! ## Vocabularies -/

/-- `TASK_TYPES` -/
def TASK_TYPES : List String :=
  ["summarization", "qa", "extraction", "classification", "translation", "coding", "reasoning",
    "rag", "generation", "general"]

/-- `TASK_TYPE_FALLBACK` -/
def TASK_TYPE_FALLBACK : String := "general"

/-- `canon_task_type` -/
def canonTaskType (s : String) : String :=
  (TASK_TYPES.find? fun t => t == toLowercase (strTrim s)).getD TASK_TYPE_FALLBACK

/-- `task_type_is_clamped` -/
def taskTypeIsClamped (s : String) : Bool := !TASK_TYPES.any fun t => t == toLowercase (strTrim s)

/-- `judge_family`: a recognised prefix wins over the model name. -/
def judgeFamily (spec : String) : ProviderFamily :=
  let spec := strTrim spec
  if spec.isEmpty then .other
  else
    match splitOnce '/' spec with
    | none => familyOf spec
    | some (pre, rest) =>
      if familyOf pre ≠ .other then familyOf pre
      else if !isBlank rest then familyOf rest
      else familyOf spec

/-- `canon_judge_provider` -/
def canonJudgeProvider (j : String) : String :=
  if toAsciiLowercase (strTrim j) == "mixed" then "mixed" else (judgeFamily j).asStr

/-! ## Costs -/

/-- A figure at the nearest multiple of a step. -/
def toGrid (step x : ℚ) : ℚ := roundAway (x / step) * step

/-- `bucket_cost`: two significant figures, then at most 15 decimal places. -/
def bucketCost (x : ℚ) : ℚ :=
  if x ≤ 0 then 0
  else
    let magnitude := Int.log 10 x
    let bucketed := toGrid (10 ^ (magnitude - 1)) x
    let places := min (max (2 - magnitude) 0) 15
    roundAway (bucketed * 10 ^ places) / 10 ^ places

example : bucketCost (3142 / 1000000) = 31 / 10000 ∧ bucketCost (1234 / 1000) = 12 / 10 ∧
    bucketCost 97 = 97 := by
  decide +kernel

/-! ## Identity -/

/-- `Effort::parse` accepts these, and `as_str` writes them back. -/
def EFFORTS : List String := ["low", "medium", "high", "xhigh", "max"]

/-- `with_effort`: a reasoning effort stays on the model, another lane does not. -/
def withEffort (id : ModelId) : String :=
  match id.lane with
  | some lane => if EFFORTS.contains lane then id.family ++ "@" ++ lane else id.family
  | none => id.family

/-- `ModelAliases::normalize` -/
def AliasTable.normalize (aliases : AliasTable) (provider model : String) : String × String :=
  let id := (canonicalize provider model).withAliases aliases
  (id.provider.asStr, withEffort id)

/-! ## Entries -/

/-- A number of the wire: none where it is not finite. -/
abbrev WireFigure := Option ℚ

/-- `ModelDigestEntry` -/
structure ModelDigestEntry where
  provider : String
  model : String
  taskType : String
  quality : WireFigure
  passRate : WireFigure
  avgCostUsd : WireFigure
  p50LatencyMs : Option ℕ
  p95LatencyMs : Option ℕ
  nRuns : UInt32
  nCases : UInt32
  qualityVariance : Option WireFigure
  judgeProvider : Option String
  rubricFingerprint : Option String
  determinism : Option String
  frozenDataset : Coverage
  significanceTested : Coverage

/-- `Reject` -/
inductive Reject where
  | malformed
  | implausible
  deriving DecidableEq

/-- `Sanitized` -/
structure SanitizedEntry where
  entry : CollectiveEntry
  taskTypeClamped : Bool
  deriving DecidableEq

/-- `MAX_CASES_PER_ENTRY` -/
def MAX_CASES_PER_ENTRY : UInt32 := 1000000

/-- `MAX_COST_PER_CASE_USD` -/
def MAX_COST_PER_CASE_USD : ℚ := 1000

/-- `implausible` -/
def implausible (e : ModelDigestEntry) : Bool :=
  e.quality.isNone || e.passRate.isNone || e.avgCostUsd.isNone || e.nRuns == 0 ||
    decide (e.nCases < e.nRuns) || decide (MAX_CASES_PER_ENTRY < e.nCases) ||
    e.avgCostUsd.any fun c => decide (MAX_COST_PER_CASE_USD < c)

/-- `f64::clamp(0.0, 1.0)` -/
def clampUnit (x : ℚ) : ℚ := min (max x 0) 1

/-- `sanitize_entry` -/
def sanitizeEntry (contributor : String) (e : ModelDigestEntry) (now : Time)
    (aliases : AliasTable) : Except Reject SanitizedEntry :=
  let provider := strTrim e.provider
  let model := strTrim e.model
  let rawTaskType := strTrim e.taskType
  if provider.isEmpty || model.isEmpty || rawTaskType.isEmpty || e.nCases == 0 then .error .malformed
  else if implausible e then .error Reject.implausible
  else
    let identity := aliases.normalize provider model
    .ok {
      entry := {
        contributorId := contributor
        provider := identity.1
        model := identity.2
        taskType := canonTaskType rawTaskType
        quality := clampUnit (e.quality.getD 0)
        passRate := clampUnit (e.passRate.getD 0)
        avgCostUsd := bucketCost (max (e.avgCostUsd.getD 0) 0)
        p50LatencyMs := e.p50LatencyMs
        p95LatencyMs := e.p95LatencyMs
        nRuns := e.nRuns
        nCases := e.nCases
        -- a variance that is not finite, or negative, is dropped
        qualityVariance := e.qualityVariance.join.filter fun v => decide (0 ≤ v)
        judgeProvider := (nonEmpty (e.judgeProvider.map strTrim)).map canonJudgeProvider
        rubricFingerprint := nonEmpty (e.rubricFingerprint.map fun r =>
          String.ofList ((strTrim r).toList.take 32))
        determinism := e.determinism.bind canonDeterminism
        frozenDataset := e.frozenDataset
        significanceTested := e.significanceTested
        receivedAt := now }
      taskTypeClamped := taskTypeIsClamped rawTaskType }

/-! ## What holds of an entry that is let through -/

/-- The hub's own rules, of a stored entry. -/
structure CollectiveEntry.Plausible (e : CollectiveEntry) : Prop where
  sanitised : e.Sanitised
  cost : e.avgCostUsd ≤ MAX_COST_PER_CASE_USD
  cases : e.nCases ≤ MAX_CASES_PER_ENTRY

theorem clampUnit_bounds (x : ℚ) : 0 ≤ clampUnit x ∧ clampUnit x ≤ 1 :=
  ⟨le_min (le_max_right x 0) zero_le_one, min_le_right _ _⟩

theorem roundAway_nonneg {x : ℚ} (h : 0 ≤ x) : 0 ≤ roundAway x := by
  unfold roundAway
  rw [if_pos h]
  exact Int.floor_nonneg.2 (by linarith)

/-- A figure at most an integer rounds to at most that integer. -/
theorem roundAway_le {x : ℚ} {n : ℤ} (hx : 0 ≤ x) (h : x ≤ n) : roundAway x ≤ n := by
  unfold roundAway
  rw [if_pos hx, ← Int.lt_add_one_iff, Int.floor_lt]
  push_cast
  linarith

theorem toGrid_nonneg {step x : ℚ} (hstep : 0 < step) (hx : 0 ≤ x) : 0 ≤ toGrid step x := by
  unfold toGrid
  have h := roundAway_nonneg (div_nonneg hx hstep.le)
  exact mul_nonneg (by exact_mod_cast h) hstep.le

/-- Rounding to a grid does not pass a bound that lies on it. -/
theorem toGrid_le {step x : ℚ} {n : ℤ} (hstep : 0 < step) (hx : 0 ≤ x) (h : x ≤ n * step) :
    toGrid step x ≤ n * step := by
  unfold toGrid
  have hle : roundAway (x / step) ≤ n :=
    roundAway_le (div_nonneg hx hstep.le) ((div_le_iff₀ hstep).2 h)
  exact mul_le_mul_of_nonneg_right (by exact_mod_cast hle) hstep.le

/-- Rounding to decimal places does not pass a whole number. -/
theorem toPlaces_bounds {y : ℚ} {n places : ℤ} (hplaces : 0 ≤ places) (hy : 0 ≤ y) (h : y ≤ n) :
    0 ≤ (roundAway (y * 10 ^ places) : ℚ) / 10 ^ places ∧
      (roundAway (y * 10 ^ places) : ℚ) / 10 ^ places ≤ n := by
  have hp : (0 : ℚ) < 10 ^ places := zpow_pos (by norm_num) _
  have hscaled : 0 ≤ y * 10 ^ places := mul_nonneg hy hp.le
  have hint : (10 : ℚ) ^ places = ((10 ^ places.toNat : ℤ) : ℚ) := by
    push_cast
    rw [← zpow_natCast, Int.toNat_of_nonneg hplaces]
  have hround : roundAway (y * 10 ^ places) ≤ n * 10 ^ places.toNat := by
    apply roundAway_le hscaled
    rw [Int.cast_mul, ← hint]
    exact mul_le_mul_of_nonneg_right h hp.le
  constructor
  · exact div_nonneg (by exact_mod_cast roundAway_nonneg hscaled) hp.le
  · rw [div_le_iff₀ hp, hint, ← Int.cast_mul]
    rw [← hint]
    exact_mod_cast hround

/-- **Bucketing a cost keeps it within the ceiling.** -/
theorem bucketCost_bounds {x : ℚ} (h : x ≤ MAX_COST_PER_CASE_USD) :
    0 ≤ bucketCost x ∧ bucketCost x ≤ MAX_COST_PER_CASE_USD := by
  have hceiling : MAX_COST_PER_CASE_USD = ((1000 : ℤ) : ℚ) := by
    unfold MAX_COST_PER_CASE_USD
    norm_num
  rw [hceiling] at h ⊢
  unfold bucketCost
  by_cases hx : x ≤ 0
  · rw [if_pos hx]
    norm_num
  · rw [if_neg hx]
    have hpos : 0 < x := not_le.1 hx
    have hlog : Int.log 10 x ≤ 3 := by
      have hmono := Int.log_mono_right hpos h (b := 10)
      have h3 : Int.log 10 ((1000 : ℤ) : ℚ) = 3 := by decide +kernel
      rwa [h3] at hmono
    have hstep : (0 : ℚ) < 10 ^ (Int.log 10 x - 1) := zpow_pos (by norm_num) _
    -- 1000 is on the grid of two significant figures
    have hgrid : ((1000 : ℤ) : ℚ) = ((10 ^ (4 - Int.log 10 x).toNat : ℤ) : ℚ) *
        10 ^ (Int.log 10 x - 1) := by
      have hnat : ((4 - Int.log 10 x).toNat : ℤ) = 4 - Int.log 10 x :=
        Int.toNat_of_nonneg (by omega)
      push_cast
      rw [← zpow_natCast, hnat, ← zpow_add₀ (by norm_num)]
      norm_num
    have hbucketed : toGrid (10 ^ (Int.log 10 x - 1)) x ≤ ((1000 : ℤ) : ℚ) := by
      rw [hgrid] at h ⊢
      exact toGrid_le hstep hpos.le h
    exact toPlaces_bounds (by omega) (toGrid_nonneg hstep hpos.le) hbucketed

/-- **What the hub lets through is plausible.** -/
theorem plausible_of_sanitizeEntry {contributor : String} {e : ModelDigestEntry} {now : Time}
    {aliases : AliasTable} {s : SanitizedEntry}
    (h : sanitizeEntry contributor e now aliases = .ok s) : s.entry.Plausible := by
  unfold sanitizeEntry at h
  simp only at h
  split_ifs at h with hmalformed hbelieved
  rw [← Except.ok.inj h]
  simp only [ implausible, Bool.or_eq_true, not_or, decide_eq_true_eq] at hbelieved
  rcases hbelieved with ⟨⟨⟨⟨⟨⟨-, -⟩, -⟩, hruns⟩, hle⟩, hmax⟩, hcost⟩
  have hcost' : max (e.avgCostUsd.getD 0) 0 ≤ MAX_COST_PER_CASE_USD := by
    apply max_le
    · rcases hc : e.avgCostUsd with - | c
      · unfold MAX_COST_PER_CASE_USD
        norm_num
      · rw [hc] at hcost
        simpa using hcost
    · unfold MAX_COST_PER_CASE_USD
      norm_num
  refine ⟨⟨?_, ?_, clampUnit_bounds _, clampUnit_bounds _, (bucketCost_bounds hcost').1, ?_, ?_⟩,
    (bucketCost_bounds hcost').2, ?_⟩
  · have hne : e.nRuns ≠ 0 := by simpa using hruns
    change 1 ≤ e.nRuns.toNat
    rw [Nat.one_le_iff_ne_zero]
    intro hzero
    exact hne (UInt32.toNat_inj.1 hzero)
  · exact UInt32.le_iff_toNat_le.1 (UInt32.not_lt.1 hle)
  · intro v hv
    exact of_decide_eq_true (Option.mem_filter_iff.1 hv).2
  · intro d hd
    rcases Option.mem_bind_iff.1 hd with ⟨r, -, hr⟩
    exact canonical_canonDeterminism r d hr
  · exact UInt32.not_lt.1 hmax

end LightTrack
