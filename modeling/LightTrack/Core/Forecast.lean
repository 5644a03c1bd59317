import LightTrack.Core.Clock
import LightTrack.Core.Limits
import LightTrack.Lib.Crossing

/-! # Budget forecasts

`crates/core/src/forecast.rs` and `forecast_gate.rs`: a daily series is fitted by a level and a
slope, and a budget is projected to the day on which its rule would be breached.

* `Trend.daysUntilDaily_spec`, `Trend.daysUntilCumulative_spec` : what the two searches find,
* `genuineCrossing_iff` : when the forecast of a rule is that of a first crossing.
-/

namespace LightTrack

open Crossing

/-! ## The fit -/

/-- `DEFAULT_ALPHA`. -/
def DEFAULT_ALPHA : ℚ := 1 / 2

/-- `RECENT_DAYS`. -/
def RECENT_DAYS : ℕ := 3

/-- `MIN_OBSERVED_DAYS`. -/
def MIN_OBSERVED_DAYS : ℕ := 4

/-- `MIN_SPAN_DAYS`. -/
def MIN_SPAN_DAYS : ℕ := 4

/-- `FLAT_BAND`. -/
def FLAT_BAND : ℚ := 5 / 100

/-- `f64::EPSILON`. -/
def EPSILON : ℚ := 1 / 2 ^ 52

structure Trend where
  level : ℚ
  slope : ℚ
  n : ℕ
  nNonzero : ℕ
  spanDays : ℕ
  r2 : Option ℚ
  recentMean : ℚ
  windowMean : ℚ
  deriving DecidableEq

/-- `least_squares_slope`. -/
def leastSquaresSlope (series : List ℚ) : ℚ :=
  let n := series.length
  if n < 2 then 0
  else
    let meanX : ℚ := (n - 1) / 2
    let meanY := series.sum / n
    let num := (series.zipIdx.map fun (y, i) => ((i : ℚ) - meanX) * (y - meanY)).sum
    let den := (series.zipIdx.map fun (_, i) => ((i : ℚ) - meanX) * ((i : ℚ) - meanX)).sum
    if den = 0 then 0 else num / den

/-- `nonzero_span`. -/
def nonzeroSpan (series : List ℚ) : ℕ :=
  match series.findIdx? (· ≠ 0) with
  | none => 0
  | some first => series.length - series.reverse.findIdx (· ≠ 0) - first

/-- `r_squared`. -/
def rSquared (series : List ℚ) (slope : ℚ) : Option ℚ :=
  let n := series.length
  if n < 2 then none
  else
    let meanX : ℚ := (n - 1) / 2
    let meanY := series.sum / n
    let intercept := meanY - slope * meanX
    let ssRes := (series.zipIdx.map fun (y, i) =>
      (y - (intercept + slope * i)) * (y - (intercept + slope * i))).sum
    let ssTot := (series.map fun y => (y - meanY) * (y - meanY)).sum
    if ssTot = 0 then some 1 else some (max 0 (min 1 (1 - ssRes / ssTot)))

namespace Trend

/-- `presentability`: why the fit may not be shown, if it may not. -/
def presentability (t : Trend) (minPoints minSpanDays : ℕ) : Except String Unit :=
  if t.n = 0 then .error "no daily history in the window"
  else if t.nNonzero < minPoints then
    .error s!"{minPoints} observed days needed, {t.nNonzero} seen"
  else if t.spanDays < minSpanDays then
    .error (s!"observations span {t.spanDays} day" ++ (if t.spanDays = 1 then "" else "s") ++
      s!", {minSpanDays} needed")
  else .ok ()

/-- `is_presentable`. -/
def isPresentable (t : Trend) : Bool :=
  match t.presentability MIN_OBSERVED_DAYS MIN_SPAN_DAYS with
  | .ok _ => true
  | .error _ => false

/-- `effective_slope`: no slope within the flat band. -/
def effectiveSlope (t : Trend) : ℚ := if |t.slope| ≤ FLAT_BAND * |t.level| then 0 else t.slope

/-- The exponentially weighted mean. -/
def ewma (alpha : ℚ) : List ℚ → ℚ
  | [] => 0
  | x :: xs => xs.foldl (fun e x => alpha * x + (1 - alpha) * e) x

/-- `fit_with`. -/
def fitWith (series : List ℚ) (alpha : ℚ) : Trend :=
  let n := series.length
  if n = 0 then ⟨0, 0, 0, 0, 0, none, 0, 0⟩
  else
    let alpha := max EPSILON (min 1 alpha)
    let slope := leastSquaresSlope series
    let recent := series.drop (n - RECENT_DAYS)
    let t : Trend :=
      { level := ewma alpha series
        slope := slope
        n := n
        nNonzero := series.countP (· ≠ 0)
        spanDays := nonzeroSpan series
        r2 := none
        recentMean := recent.sum / recent.length
        windowMean := series.sum / n }
    if t.isPresentable then { t with r2 := rSquared series slope } else t

/-- `fit`. -/
def fit (series : List ℚ) : Trend := fitWith series DEFAULT_ALPHA

/-! ## Projections -/

variable (t : Trend)

/-- `project`. -/
def project (steps : ℚ) : ℚ := max (t.level + t.slope * steps) 0

/-- `project_banded`. -/
def projectBanded (steps : ℚ) : ℚ := max (t.level + t.effectiveSlope * steps) 0

/-- `days_until_daily`. -/
def daysUntilDaily (threshold : WithTop ℚ) (horizon : ℕ) : Option ℚ :=
  match threshold with
  | ⊤ => none
  | (threshold : ℚ) =>
    if threshold ≤ t.level then some 0
    else if t.effectiveSlope ≤ 0 then none
    else
      let d := (threshold - t.level) / t.effectiveSlope
      if d ≤ horizon then some d else none

/-- The loop of `days_until_cumulative`, from day `d` with `cum` behind it. -/
def scanDays (budget : ℚ) : ℕ → ℕ → ℚ → Option ℚ
  | 0, _, _ => none
  | n + 1, d, cum =>
    let day := t.projectBanded d
    if budget ≤ cum + day then
      some (((d - 1 : ℕ) : ℚ) + if 0 < day then (budget - cum) / day else 0)
    else scanDays budget n (d + 1) (cum + day)

/-- `days_until_cumulative`. -/
def daysUntilCumulative (budget : WithTop ℚ) (horizon : ℕ) : Option ℚ :=
  match budget with
  | ⊤ => none
  | (budget : ℚ) => if budget ≤ 0 then some 0 else t.scanDays budget horizon 1 0

end Trend

/-- `nominal_threshold`: a revenue share has no constant to project against. -/
def LimitRule.nominalThreshold (r : LimitRule) : WithTop ℚ :=
  match r.threshold with
  | .fixed v => v
  | .revenueShare _ => ⊤

/-- `round`: to six places. -/
def round6 (x : ℚ) : ℚ := roundAway (x * 1000000) / 1000000

structure BudgetForecast where
  ruleId : String
  metric : LimitMetric
  window : LimitWindow
  threshold : WithTop ℚ
  current : ℚ
  projectedDaily : ℚ
  trend : Trend
  etaDays : Option ℚ
  deriving DecidableEq

/-- `forecast_budget`. -/
def forecastBudget (rule : LimitRule) (series : List ℚ) (current : ℚ) (horizon : ℕ) :
    BudgetForecast :=
  let trend := Trend.fit series
  let eta :=
    match rule.window with
    | .day => trend.daysUntilDaily rule.nominalThreshold horizon
    | .month => trend.daysUntilCumulative (rule.nominalThreshold.map (· - current)) horizon
    | .hour => none
  { ruleId := rule.id
    metric := rule.metric
    window := rule.window
    threshold := rule.nominalThreshold
    current := round6 current
    projectedDaily := round6 (trend.project 1)
    trend := trend
    etaDays := eta.filter (0 < ·) }

/-! ## What the searches find -/

namespace Trend

/-- The level of a series without negative values is not negative. -/
theorem ewma_nonneg {alpha : ℚ} (h : 0 ≤ alpha) (h' : alpha ≤ 1) {series : List ℚ}
    (hs : ∀ x ∈ series, 0 ≤ x) : 0 ≤ ewma alpha series := by
  cases series with
  | nil => exact le_rfl
  | cons x xs =>
    have hx := hs x List.mem_cons_self
    have hxs : ∀ y ∈ xs, 0 ≤ y := fun y hy => hs y (List.mem_cons_of_mem _ hy)
    unfold ewma
    clear hs
    induction xs generalizing x with
    | nil => exact hx
    | cons y ys ih =>
      have hy := hxs y List.mem_cons_self
      have hnext : 0 ≤ alpha * y + (1 - alpha) * x :=
        add_nonneg (mul_nonneg h hy) (mul_nonneg (by linarith) hx)
      exact ih _ hnext fun z hz => hxs z (List.mem_cons_of_mem _ hz)

theorem fitWith_level (series : List ℚ) (alpha : ℚ) :
    (fitWith series alpha).level = ewma (max EPSILON (min 1 alpha)) series := by
  cases series with
  | nil => rfl
  | cons x xs =>
    simp only [fitWith, List.length_cons, Nat.succ_ne_zero, if_false]
    split_ifs <;> rfl

theorem fit_level_nonneg {series : List ℚ} (hs : ∀ x ∈ series, 0 ≤ x) : 0 ≤ (fit series).level := by
  rw [fit, fitWith_level]
  refine ewma_nonneg ?_ ?_ hs
  · exact le_max_of_le_left (by norm_num [EPSILON])
  · exact max_le (by norm_num [EPSILON]) (min_le_left _ _)

variable {t : Trend}

theorem projectBanded_nonneg (steps : ℚ) : 0 ≤ t.projectBanded steps := le_max_right _ _

/-- The band is left by the line alone while the level is not negative and the bound not passed. -/
theorem projectBanded_lt {c s : ℚ} (hc : 0 < c) (h : t.level + t.effectiveSlope * s < c) :
    t.projectBanded s < c := max_lt h hc

/-- What the daily search finds, for a level that is not negative. -/
theorem daysUntilDaily_spec (hlevel : 0 ≤ t.level) (c : ℚ) (horizon : ℕ) :
    (c ≤ t.level ∧ t.daysUntilDaily c horizon = some 0) ∨
    (t.level < c ∧ ∃ d, t.daysUntilDaily c horizon = some d ∧ 0 < d ∧ d ≤ horizon ∧
      FirstReaches t.projectBanded c d) ∨
    (t.level < c ∧ t.daysUntilDaily c horizon = none ∧
      ∀ s : ℚ, 0 ≤ s → s ≤ horizon → t.projectBanded s < c) := by
  have hsearch : t.daysUntilDaily c horizon =
      if c ≤ t.level then some 0
      else if t.effectiveSlope ≤ 0 then none
      else if (c - t.level) / t.effectiveSlope ≤ horizon then
        some ((c - t.level) / t.effectiveSlope)
      else none := rfl
  by_cases hc : c ≤ t.level
  · rw [if_pos hc] at hsearch
    exact Or.inl ⟨hc, hsearch⟩
  have hbelow : t.level < c := not_le.1 hc
  have hpos : 0 < c := hlevel.trans_lt hbelow
  rw [if_neg hc] at hsearch
  by_cases hslope : t.effectiveSlope ≤ 0
  · -- a flat or falling line stays where it is or below
    rw [if_pos hslope] at hsearch
    refine Or.inr (Or.inr ⟨hbelow, hsearch, fun s hs _ => projectBanded_lt hpos ?_⟩)
    have := mul_nonpos_of_nonpos_of_nonneg hslope hs
    linarith
  rw [if_neg hslope] at hsearch
  have hrise : 0 < t.effectiveSlope := not_le.1 hslope
  obtain ⟨hbefore, hreached⟩ : FirstReaches (fun x => t.level + t.effectiveSlope * x) c
      ((c - t.level) / t.effectiveSlope) := firstReaches_line hrise
  by_cases hd : (c - t.level) / t.effectiveSlope ≤ horizon
  · rw [if_pos hd] at hsearch
    refine Or.inr (Or.inl ⟨hbelow, _, hsearch, div_pos (by linarith) hrise, hd, ?_, ?_⟩)
    · exact fun s hs hsd => projectBanded_lt hpos (hbefore s hs hsd)
    · rw [projectBanded, hreached]
      exact max_eq_left hpos.le
  · rw [if_neg hd] at hsearch
    refine Or.inr (Or.inr ⟨hbelow, hsearch, fun s hs hsh => projectBanded_lt hpos ?_⟩)
    exact hbefore s hs (hsh.trans_lt (not_le.1 hd))

/-- The banded projection added up over the days to come, each day's share coming in evenly. -/
def cumulativeBanded (t : Trend) : ℚ → ℚ :=
  accumulated fun i => t.projectBanded ((i + 1 : ℕ) : ℚ)

/-- What the loop finds when `k` days are behind it. -/
theorem scanDays_spec {budget : ℚ} (n k : ℕ)
    (hk : ∑ i ∈ Finset.range k, t.projectBanded ((i + 1 : ℕ) : ℚ) < budget) :
    (∃ i, i < k + n ∧ ∑ j ∈ Finset.range i, t.projectBanded ((j + 1 : ℕ) : ℚ) < budget ∧
      budget ≤ ∑ j ∈ Finset.range i, t.projectBanded ((j + 1 : ℕ) : ℚ) +
        t.projectBanded ((i + 1 : ℕ) : ℚ) ∧
      t.scanDays budget n (k + 1) (∑ j ∈ Finset.range k, t.projectBanded ((j + 1 : ℕ) : ℚ)) =
        some (i + (budget - ∑ j ∈ Finset.range i, t.projectBanded ((j + 1 : ℕ) : ℚ)) /
          t.projectBanded ((i + 1 : ℕ) : ℚ))) ∨
    (t.scanDays budget n (k + 1) (∑ j ∈ Finset.range k, t.projectBanded ((j + 1 : ℕ) : ℚ)) = none ∧
      ∑ j ∈ Finset.range (k + n), t.projectBanded ((j + 1 : ℕ) : ℚ) < budget) := by
  induction n generalizing k with
  | zero => exact Or.inr ⟨rfl, hk⟩
  | succ n ih =>
    unfold scanDays
    simp only
    by_cases hcross : budget ≤ ∑ j ∈ Finset.range k, t.projectBanded ((j + 1 : ℕ) : ℚ) +
        t.projectBanded ((k + 1 : ℕ) : ℚ)
    · left
      have hday : 0 < t.projectBanded ((k + 1 : ℕ) : ℚ) := by linarith
      refine ⟨k, by omega, hk, hcross, ?_⟩
      rw [if_pos hcross, if_pos hday, Nat.add_sub_cancel]
    · rw [if_neg hcross]
      have hnext : ∑ j ∈ Finset.range (k + 1), t.projectBanded ((j + 1 : ℕ) : ℚ) < budget := by
        rw [Finset.sum_range_succ]
        exact not_le.1 hcross
      have hrest := ih (k + 1) hnext
      rw [Finset.sum_range_succ, Nat.add_right_comm k 1 n] at hrest
      exact hrest

/-- What the cumulative search finds. -/
theorem daysUntilCumulative_spec (budget : ℚ) (horizon : ℕ) :
    (budget ≤ 0 ∧ t.daysUntilCumulative budget horizon = some 0) ∨
    (0 < budget ∧ ∃ d, t.daysUntilCumulative budget horizon = some d ∧ 0 < d ∧ d ≤ horizon ∧
      FirstReaches t.cumulativeBanded budget d) ∨
    (0 < budget ∧ t.daysUntilCumulative budget horizon = none ∧
      ∀ s : ℚ, 0 ≤ s → s ≤ horizon → t.cumulativeBanded s < budget) := by
  have hsearch : t.daysUntilCumulative budget horizon =
      if budget ≤ 0 then some 0 else t.scanDays budget horizon 1 0 := rfl
  have hnonneg : ∀ i : ℕ, 0 ≤ t.projectBanded ((i + 1 : ℕ) : ℚ) := fun i => projectBanded_nonneg _
  by_cases hb : budget ≤ 0
  · rw [if_pos hb] at hsearch
    exact Or.inl ⟨hb, hsearch⟩
  rw [if_neg hb] at hsearch
  have hpos : 0 < budget := not_le.1 hb
  have hzero : ∑ i ∈ Finset.range 0, t.projectBanded ((i + 1 : ℕ) : ℚ) < budget := hpos
  rcases scanDays_spec horizon 0 hzero with ⟨i, hi, hlo, hhi, hfound⟩ | ⟨hnone, hend⟩
  · obtain ⟨hfirst, hpart, hone⟩ := firstReaches_accumulated hnonneg hlo hhi
    refine Or.inr (Or.inl ⟨hpos, _, hsearch.trans hfound, ?_, ?_, hfirst⟩)
    · have hi0 : (0 : ℚ) ≤ i := Nat.cast_nonneg i
      linarith
    · have hle : (i : ℚ) + 1 ≤ horizon := by
        rw [Nat.zero_add] at hi
        exact_mod_cast hi
      linarith
  · refine Or.inr (Or.inr ⟨hpos, hsearch.trans hnone, fun s hs hsh => ?_⟩)
    rw [Nat.zero_add] at hend
    exact (accumulated_le_sum hnonneg hs hsh).trans_lt hend

end Trend

/-! ## First crossings of a budget -/

/-- The quantity a rule is measured by: the projected day, or what is spent by then. -/
def LimitRule.measured (rule : LimitRule) (trend : Trend) (current : ℚ) : ℚ → ℚ :=
  match rule.window with
  | .month => fun s => current + trend.cumulativeBanded s
  | _ => trend.projectBanded

/-- A forecast tells of the first crossing, of a rule that is not breached, and of none only where
there is none. -/
structure GenuineCrossing (rule : LimitRule) (series : List ℚ) (current : ℚ) (horizon : ℕ) :
    Prop where
  eta : ∀ d : ℚ, (forecastBudget rule series current horizon).etaDays = some d →
    (current : WithTop ℚ) < rule.nominalThreshold ∧ 0 < d ∧ d ≤ horizon ∧
      (∀ s : ℚ, 0 ≤ s → s < d →
        (rule.measured (Trend.fit series) current s : WithTop ℚ) < rule.nominalThreshold) ∧
      rule.nominalThreshold ≤ rule.measured (Trend.fit series) current d
  none : (forecastBudget rule series current horizon).etaDays = none →
    (current : WithTop ℚ) < rule.nominalThreshold → ∀ s : ℚ, 0 ≤ s → s ≤ horizon →
      (rule.measured (Trend.fit series) current s : WithTop ℚ) < rule.nominalThreshold

/-- Of a daily rule: where the level has reached the threshold the current value has, and where the
current value has, the level has too or the projection does not within the horizon. -/
def LevelTellsBreach (rule : LimitRule) (series : List ℚ) (current : ℚ) (horizon : ℕ) : Prop :=
  rule.window = .day →
    (rule.nominalThreshold ≤ (Trend.fit series).level → rule.nominalThreshold ≤ current) ∧
    (rule.nominalThreshold ≤ current → rule.nominalThreshold ≤ (Trend.fit series).level ∨
      ∀ s : ℚ, 0 ≤ s → s ≤ horizon →
        ((Trend.fit series).projectBanded s : WithTop ℚ) < rule.nominalThreshold)

section Genuine

variable {rule : LimitRule} {series : List ℚ} {current : ℚ} {horizon : ℕ}

/-- A rule with no constant threshold is never forecast, and nothing reaches its threshold. -/
theorem genuineCrossing_of_top (h : rule.nominalThreshold = ⊤) :
    GenuineCrossing rule series current horizon := by
  have hnone : (forecastBudget rule series current horizon).etaDays = Option.none := by
    unfold forecastBudget
    rw [h]
    cases rule.window <;> rfl
  constructor
  · intro d hd
    rw [hnone] at hd
    exact nomatch hd
  · intro _ _ s _ _
    rw [h]
    exact WithTop.coe_lt_top _

theorem genuineCrossing_month {c : ℚ} (hc : rule.nominalThreshold = c)
    (hw : rule.window = .month) : GenuineCrossing rule series current horizon := by
  have heta : (forecastBudget rule series current horizon).etaDays =
      ((Trend.fit series).daysUntilCumulative ((c - current : ℚ) : WithTop ℚ) horizon).filter
        (0 < ·) := by
    unfold forecastBudget
    rw [hc, hw]
    rfl
  have hmeasured : rule.measured (Trend.fit series) current =
      fun s => current + (Trend.fit series).cumulativeBanded s := by
    unfold LimitRule.measured
    rw [hw]
  rcases (Trend.fit series).daysUntilCumulative_spec (c - current) horizon with
    ⟨hb, hfound⟩ | ⟨hb, d, hfound, hpos, hle, hfirst⟩ | ⟨hb, hfound, hbelow⟩
  · -- the headroom is used up: nothing is forecast, and the rule is breached
    rw [hfound] at heta
    constructor
    · intro d hd
      rw [heta] at hd
      simp only [Option.filter_some, lt_irrefl, decide_false, Bool.false_eq_true, if_false,
        reduceCtorEq] at hd
    · intro _ hlt
      rw [hc, WithTop.coe_lt_coe] at hlt
      linarith
  · rw [hfound, Option.filter_some, if_pos (by simpa using hpos)] at heta
    constructor
    · intro d' hd'
      rw [heta, Option.some.injEq] at hd'
      subst hd'
      rw [hc, hmeasured]
      refine ⟨WithTop.coe_lt_coe.2 (by linarith), hpos, hle, fun s hs hsd => ?_, ?_⟩
      · have := hfirst.before s hs hsd
        exact WithTop.coe_lt_coe.2 (by linarith)
      · have := hfirst.reached
        exact WithTop.coe_le_coe.2 (by linarith)
    · intro hnone
      rw [heta] at hnone
      exact nomatch hnone
  · rw [hfound] at heta
    constructor
    · intro d hd
      rw [heta] at hd
      exact nomatch hd
    · intro _ _ s hs hsh
      rw [hc, hmeasured]
      have := hbelow s hs hsh
      exact WithTop.coe_lt_coe.2 (by linarith)

theorem genuineCrossing_day {c : ℚ} (hc : rule.nominalThreshold = c) (hw : rule.window = .day)
    (hs : ∀ x ∈ series, 0 ≤ x) : GenuineCrossing rule series current horizon ↔
      LevelTellsBreach rule series current horizon := by
  have heta : (forecastBudget rule series current horizon).etaDays =
      ((Trend.fit series).daysUntilDaily c horizon).filter (0 < ·) := by
    unfold forecastBudget
    rw [hc, hw]
  have hmeasured : rule.measured (Trend.fit series) current = (Trend.fit series).projectBanded := by
    unfold LimitRule.measured
    rw [hw]
  have hlevel := Trend.fit_level_nonneg hs
  have hstart : (Trend.fit series).projectBanded 0 = (Trend.fit series).level := by
    rw [Trend.projectBanded, mul_zero, add_zero]
    exact max_eq_left hlevel
  unfold LevelTellsBreach
  rw [hc]
  simp only [WithTop.coe_le_coe, WithTop.coe_lt_coe, hw, forall_true_left]
  rcases Trend.daysUntilDaily_spec hlevel c horizon with
    ⟨hreached, hfound⟩ | ⟨hbelow, d, hfound, hpos, hle, hfirst⟩ | ⟨hbelow, hfound, hstays⟩
  · -- the level has reached the threshold: nothing is forecast
    rw [hfound] at heta
    constructor
    · intro h
      refine ⟨fun _ => not_lt.1 fun hlt => ?_, fun _ => Or.inl hreached⟩
      have hzero := h.none (by rw [heta]; simp) (by rw [hc]; exact WithTop.coe_lt_coe.2 hlt) 0 le_rfl
        (Nat.cast_nonneg _)
      rw [hc, hmeasured, hstart, WithTop.coe_lt_coe] at hzero
      linarith
    · rintro ⟨hcurrent, -⟩
      constructor
      · intro d hd
        rw [heta] at hd
        simp only [Option.filter_some, lt_irrefl, decide_false, Bool.false_eq_true, if_false,
          reduceCtorEq] at hd
      · intro _ hlt
        rw [hc, WithTop.coe_lt_coe] at hlt
        exact absurd (hcurrent hreached) (not_le.2 hlt)
  · -- a crossing is forecast, whatever the current value is
    rw [hfound, Option.filter_some, if_pos (by simpa using hpos)] at heta
    constructor
    · intro h
      have hlt := (h.eta d heta).1
      rw [hc, WithTop.coe_lt_coe] at hlt
      exact ⟨fun hle' => absurd hle' (not_le.2 hbelow), fun hle' => absurd hle' (not_le.2 hlt)⟩
    · rintro ⟨-, hcurrent⟩
      have hlt : current < c := by
        refine not_le.1 fun hle' => ?_
        rcases hcurrent hle' with hlevel' | hstays
        · exact absurd hlevel' (not_le.2 hbelow)
        · exact absurd hfirst.reached (hstays d hpos.le hle).ne
      constructor
      · intro d' hd'
        rw [heta, Option.some.injEq] at hd'
        subst hd'
        rw [hc, hmeasured]
        exact ⟨WithTop.coe_lt_coe.2 hlt, hpos, hle,
          fun s hs hsd => WithTop.coe_lt_coe.2 (hfirst.before s hs hsd),
          WithTop.coe_le_coe.2 hfirst.reached.ge⟩
      · intro hnone
        rw [heta] at hnone
        exact nomatch hnone
  · -- nothing is forecast, and the projection stays below
    rw [hfound] at heta
    constructor
    · exact fun _ => ⟨fun hle' => absurd hle' (not_le.2 hbelow), fun _ => Or.inr hstays⟩
    · intro _
      constructor
      · intro d hd
        rw [heta] at hd
        exact nomatch hd
      · intro _ _ s hs hsh
        rw [hc, hmeasured]
        exact WithTop.coe_lt_coe.2 (hstays s hs hsh)

end Genuine

/-- **A forecast is that of a first crossing** for every monthly rule, and for a daily rule exactly
where the level of its series tells whether the rule is breached. -/
theorem genuineCrossing_iff (rule : LimitRule) (series : List ℚ) (current : ℚ) (horizon : ℕ)
    (hw : rule.window ≠ .hour) (hs : ∀ x ∈ series, 0 ≤ x) :
    GenuineCrossing rule series current horizon ↔
      LevelTellsBreach rule series current horizon := by
  cases hc : rule.nominalThreshold with
  | top =>
    refine ⟨fun _ _ => ?_, fun _ => genuineCrossing_of_top hc⟩
    rw [hc]
    exact ⟨fun h => absurd h (by simp), fun h => absurd h (by simp)⟩
  | coe c =>
    cases hwin : rule.window with
    | hour => exact absurd hwin hw
    | day => exact genuineCrossing_day hc hwin hs
    | month =>
      refine ⟨fun _ hday => ?_, fun _ => genuineCrossing_month hc hwin⟩
      rw [hwin] at hday
      exact nomatch hday

/-- A cap of ten a day. -/
def tenADay : LimitRule where
  id := "r1"
  projectId := "p1"
  metric := .costUsd
  window := .day
  threshold := .fixed 10
  action := .alert

theorem genuineCrossing_iff_tenADay :
    GenuineCrossing tenADay [1, 2, 3, 4, 5] 5 30 ↔ LevelTellsBreach tenADay [1, 2, 3, 4, 5] 5 30 :=
  genuineCrossing_iff tenADay [1, 2, 3, 4, 5] 5 30 (by decide) (by decide +kernel)

/-- **A breach that has happened is forecast**: today's spend is beyond the cap, the smoothed level
of the days is not. -/
theorem breached_rule_forecast :
    ¬ ∀ (rule : LimitRule) (series : List ℚ) (current : ℚ) (horizon : ℕ), rule.window ≠ .hour →
      (∀ x ∈ series, 0 ≤ x) → GenuineCrossing rule series current horizon := by
  intro h
  have hgenuine := h tenADay [1, 2, 3, 4, 5] 12 30 (by decide) (by decide +kernel)
  have heta : (forecastBudget tenADay [1, 2, 3, 4, 5] 12 30).etaDays = some (95 / 16) := by
    decide +kernel
  have hlt := (hgenuine.eta _ heta).1
  exact absurd hlt (by decide +kernel)

end LightTrack
