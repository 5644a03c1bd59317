import LightTrack.Core.Margin
import LightTrack.Lib.Cuts
import LightTrack.Store.Timestamp

/-! # Per-day margin trend

`computeMarginTrend` recognizes revenue day by day, each day a window of its own, and
gives a dense series per key, the sums of all series, and the biggest movers.

* `sum_recognized` : the days of a window recognize what the window does, less the
  second the midnights cut away.
-/

namespace LightTrack

namespace Margin

/-! ## The trend -/

/-- One cost of a key on a day. -/
structure DailyKeyCost where
  day : String
  key : String
  costUsd : ℚ

/-- One day's revenue, cost and margin of a key. -/
structure MarginTrendPoint where
  date : String
  revenueUsd : Figure
  costUsd : ℚ
  marginUsd : Figure

/-- A dense daily series of one key, with its totals over the window. -/
structure MarginTrendSeries where
  key : String
  points : List MarginTrendPoint
  totalRevenueUsd : Figure
  totalCostUsd : ℚ
  totalMarginUsd : Figure

structure MarginTrend where
  series : List MarginTrendSeries
  totals : MarginTrendSeries
  keyCount : ℕ
  topN : ℕ

/-- The point of one day. -/
def pointOf (date : String) (r : Figure) (c : ℚ) : MarginTrendPoint where
  date := date
  revenueUsd := r.round
  costUsd := round6 c
  marginUsd := (r.less c).round

def buildSeries (key : String) (days : List String) (rev : Option (OrdMap String Figure))
    (cost : Option (OrdMap String ℚ)) : MarginTrendSeries :=
  let r := fun d => (rev.bind fun m => m.get d).getD 0
  let c := fun d => (cost.bind fun m => m.get d).getD 0
  let tr := (days.map r).sum
  let tc := (days.map c).sum
  { key := key
    points := days.map fun d => pointOf d (r d) (c d)
    totalRevenueUsd := tr.round
    totalCostUsd := round6 tc
    totalMarginUsd := (tr.less tc).round }

/-- `build_totals`. Every series has a point for each day, so the indices are in range. -/
def buildTotals (days : List String) (series : List MarginTrendSeries) : MarginTrendSeries :=
  let points := days.zipIdx.map fun (d, i) =>
    pointOf d (series.map fun s => s.points[i]?.elim 0 (·.revenueUsd)).sum
      (series.map fun s => s.points[i]?.elim 0 (·.costUsd)).sum
  let tr := (points.map (·.revenueUsd)).sum
  let tc := (points.map (·.costUsd)).sum
  { key := "__total__"
    points := points
    totalRevenueUsd := tr.round
    totalCostUsd := round6 tc
    totalMarginUsd := (tr.less tc).round }

/-- `x.abs()`; that of NaN is above every number. -/
def Figure.abs (x : Figure) : Figure := x.map fun y => |y|

/-- What is recognized of `r` on one day. -/
def dayRecognized (r : Revenue) (day : Int) : Figure :=
  recognized r (midnight day) (midnight day + Time.day)

section Trend

variable (revenue : List Revenue) (dailyCost : List DailyKeyCost) (dim : MarginDimension)
  (startDay : Int) (days : ℕ)

/-- `day_strings` -/
def dayStrings : List String := (List.range days).map fun i : ℕ => dayString (startDay + i)

/-- What each event adds to its key on each day, where that is not zero. -/
def revenuePostings : List (String × String × Figure) :=
  revenue.flatMap fun r => (List.range days).filterMap fun i : ℕ =>
    let amt := dayRecognized r (startDay + i)
    if amt ≠ 0 then some (dimKey dim r, dayString (startDay + i), amt) else none

/-- `rev` -/
def trendRevenue : OrdMap String (OrdMap String Figure) :=
  OrdMap.crossTally (fun p => p.1) (fun p => p.2.1) (fun p => p.2.2)
    (revenuePostings revenue dim startDay days)

/-- `cost`, of the days inside the window. -/
def trendCost : OrdMap String (OrdMap String ℚ) :=
  OrdMap.crossTally DailyKeyCost.key DailyKeyCost.day DailyKeyCost.costUsd
    (dailyCost.filter fun c => decide (c.day ∈ dayStrings startDay days))

/-- `keys` -/
def trendKeys : List String :=
  OrdMap.keySet ((trendRevenue revenue dim startDay days).keys ++
    (trendCost dailyCost startDay days).keys)

/-- The series of every key, before the cap. -/
def allSeries : List MarginTrendSeries :=
  (trendKeys revenue dailyCost dim startDay days).map fun k =>
    buildSeries k (dayStrings startDay days) ((trendRevenue revenue dim startDay days).get k)
      ((trendCost dailyCost startDay days).get k)

/-- The margin trend of a window of days, capped to the `topN` keys by absolute total margin. -/
def computeMarginTrend (topN : ℕ) : MarginTrend :=
  let series := allSeries revenue dailyCost dim startDay days
  { series := (series.mergeSort fun a b =>
      decide (b.totalMarginUsd.abs ≤ a.totalMarginUsd.abs)).take topN
    totals := buildTotals (dayStrings startDay days) series
    keyCount := series.length
    topN := topN }

end Trend

/-! ## What a midnight cuts away -/

/-- The amount of `r` with its sign. -/
def signed (r : Revenue) : ℚ := if r.kind = .refund then -|r.amountUsd| else |r.amountUsd|

/-- The part of `r` that its days recognize less than the window: the second a midnight cuts away
between a start and an end off the second. -/
def lostRevenue (r : Revenue) (startDay : Int) (days : ℕ) : ℚ :=
  match r.periodStart, r.periodEnd with
  | some ps, some pe =>
    if ps < pe then
      signed r * ((Cuts.lost Time.second Time.day (max ps (midnight startDay))
        (min pe (midnight (startDay + days))) : ℚ) / Time.numSeconds (pe - ps))
    else 0
  | _, _ => 0

/-- Without a period, an event is recognized in full at its instant. -/
theorem recognized_of_ts {r : Revenue}
    (h : ∀ ps pe, r.periodStart = some ps → r.periodEnd = some pe → ¬ ps < pe)
    (since until_ : Time) :
    recognized r since until_ =
      if since ≤ r.ts ∧ r.ts < until_ then ((signed r : ℚ) : Figure) else 0 := by
  have hamount : recognizedAmount r.toRevenueEvent since until_ =
      some (if since ≤ r.ts ∧ r.ts < until_ then signed r else 0) := by
    unfold recognizedAmount signed
    cases hps : r.periodStart with
    | none => rfl
    | some ps =>
      cases hpe : r.periodEnd with
      | none => rfl
      | some pe => exact if_neg (h ps pe hps hpe)
  unfold recognized
  rw [hamount]
  split_ifs <;> rfl

theorem recognized_of_period {r : Revenue} {ps pe : Time} (hps : r.periodStart = some ps)
    (hpe : r.periodEnd = some pe) (hlt : ps < pe) (since until_ : Time) :
    recognized r since until_ =
      if min pe until_ ≤ max ps since then 0
      else if Time.numSeconds (pe - ps) = 0 then ⊤
      else ((signed r * ((Cuts.units Time.second ps pe since until_ : ℚ) /
        Time.numSeconds (pe - ps)) : ℚ) : Figure) := by
  have hsigned : (if r.kind = .refund then -|r.amountUsd| else |r.amountUsd|) = signed r := rfl
  unfold recognized recognizedAmount Cuts.units
  rw [hps, hpe]
  simp only [if_pos hlt, hsigned]
  split_ifs with hover htotal
  · rfl
  · rfl
  · have hsecs : Time.numSeconds (min pe until_ - max ps since) =
        (min pe until_ - max ps since) / Time.second := by
      unfold Time.numSeconds
      exact Int.tdiv_eq_ediv_of_nonneg (sub_nonneg.2 (not_le.1 hover).le)
    rw [hsecs]
    rfl

theorem midnight_succ (day : Int) : midnight day + Time.day = midnight (day + 1) := by
  unfold midnight
  ring

/-- An event with a period of a second or more, as its units. -/
theorem recognized_eq_units {r : Revenue} {ps pe : Time} (hps : r.periodStart = some ps)
    (hpe : r.periodEnd = some pe) (hlt : ps < pe) (htotal : Time.numSeconds (pe - ps) ≠ 0)
    (since until_ : Time) :
    recognized r since until_ =
      ((signed r * ((Cuts.units Time.second ps pe since until_ : ℚ) /
        Time.numSeconds (pe - ps)) : ℚ) : Figure) := by
  rw [recognized_of_period hps hpe hlt, if_neg htotal]
  split_ifs with hover
  · have hzero : Cuts.units Time.second ps pe since until_ = 0 := if_pos hover
    rw [hzero, Int.cast_zero, zero_div, mul_zero]
    rfl
  · rfl

/-- Recognition in full at an instant. -/
theorem additive_of_ts {r : Revenue}
    (h : ∀ ps pe, r.periodStart = some ps → r.periodEnd = some pe → ¬ ps < pe) :
    Cuts.Additive (recognized r) where
  self s := by
    rw [recognized_of_ts h]
    exact if_neg fun hin => absurd hin.2 (not_lt.2 hin.1)
  step s c t hsc hct := by
    rw [recognized_of_ts h, recognized_of_ts h, recognized_of_ts h]
    by_cases hbefore : r.ts < c
    · have hiff : (s ≤ r.ts ∧ r.ts < c) ↔ (s ≤ r.ts ∧ r.ts < t) :=
        and_congr_right fun _ => iff_of_true hbefore (lt_of_lt_of_le hbefore hct)
      have hout : ¬ (c ≤ r.ts ∧ r.ts < t) := fun hin => absurd hin.1 (not_le.2 hbefore)
      rw [if_congr hiff rfl rfl, if_neg hout, add_zero]
    · have hiff : (c ≤ r.ts ∧ r.ts < t) ↔ (s ≤ r.ts ∧ r.ts < t) :=
        and_congr_left fun _ => iff_of_true (not_lt.1 hbefore) (hsc.trans (not_lt.1 hbefore))
      have hout : ¬ (s ≤ r.ts ∧ r.ts < c) := fun hin => hbefore hin.2
      rw [if_congr hiff rfl rfl, if_neg hout, zero_add]

/-- A period shorter than a second: NaN wherever it reaches. -/
theorem additive_of_short {r : Revenue} {ps pe : Time} (hps : r.periodStart = some ps)
    (hpe : r.periodEnd = some pe) (hlt : ps < pe) (htotal : Time.numSeconds (pe - ps) = 0) :
    Cuts.Additive (recognized r) where
  self s := by
    rw [recognized_of_period hps hpe hlt]
    exact if_pos ((min_le_right _ _).trans (le_max_right _ _))
  step s c t hsc hct := by
    simp only [recognized_of_period hps hpe hlt, if_pos htotal]
    rw [if_congr (Cuts.misses_iff hlt hsc hct) rfl rfl]
    by_cases hfirst : min pe c ≤ max ps s
    · rw [if_pos hfirst, zero_add]
      exact if_congr (and_iff_right hfirst).symm rfl rfl
    · rw [if_neg hfirst, WithTop.top_add, if_neg fun hboth => hfirst hboth.1]

theorem sum_recognized (r : Revenue) (startDay : Int) (days : ℕ) :
    ((List.range days).map fun i : ℕ => dayRecognized r (startDay + i)).sum +
        ((lostRevenue r startDay days : ℚ) : Figure) =
      recognized r (midnight startDay) (midnight (startDay + days)) := by
  have hday : (0 : Int) < Time.day := by decide
  have hcells : ((List.range days).map fun i : ℕ => dayRecognized r (startDay + i)) =
      (List.range days).map fun i : ℕ =>
        recognized r (Time.day * (startDay + i)) (Time.day * (startDay + (i + 1 : ℕ))) := by
    apply List.map_congr_left
    intro i hi
    unfold dayRecognized
    rw [midnight_succ, add_assoc]
    rfl
  -- an event whose recognition is additive loses nothing
  have hadditive (hlost : lostRevenue r startDay days = 0) (h : Cuts.Additive (recognized r)) :
      ((List.range days).map fun i : ℕ => dayRecognized r (startDay + i)).sum +
        ((lostRevenue r startDay days : ℚ) : Figure) =
      recognized r (midnight startDay) (midnight (startDay + days)) := by
    rw [hlost, hcells, Cuts.sum_cells hday h]
    exact add_zero _
  by_cases hperiod : ∀ ps pe, r.periodStart = some ps → r.periodEnd = some pe → ¬ ps < pe
  · apply hadditive _ (additive_of_ts hperiod)
    unfold lostRevenue
    cases hps : r.periodStart with
    | none => rfl
    | some ps =>
      cases hpe : r.periodEnd with
      | none => rfl
      | some pe => exact if_neg (hperiod ps pe hps hpe)
  · push Not at hperiod
    obtain ⟨ps, pe, hps, hpe, hlt⟩ := hperiod
    have hlost : lostRevenue r startDay days =
        signed r * ((Cuts.lost Time.second Time.day (max ps (midnight startDay))
          (min pe (midnight (startDay + days))) : ℚ) / Time.numSeconds (pe - ps)) := by
      unfold lostRevenue
      rw [hps, hpe]
      exact if_pos hlt
    by_cases htotal : Time.numSeconds (pe - ps) = 0
    · apply hadditive _ (additive_of_short hps hpe hlt htotal)
      rw [hlost, htotal, Int.cast_zero, div_zero, mul_zero]
    · -- the days hold one second less where a midnight cuts one away
      have hunits := Cuts.sum_units (u := Time.second) (by decide) hday (by decide) ps pe
        startDay days
      have hsum : ((List.range days).map fun i : ℕ => dayRecognized r (startDay + i)) =
          ((List.range days).map fun i : ℕ => signed r * ((Cuts.units Time.second ps pe
            (Time.day * (startDay + i)) (Time.day * (startDay + (i + 1 : ℕ))) : ℚ) /
              Time.numSeconds (pe - ps))).map WithTop.some := by
        rw [hcells, List.map_map]
        simp only [recognized_eq_units hps hpe hlt htotal]
        rfl
      rw [hsum, Rounding.sum_coe, ← WithTop.coe_add, recognized_eq_units hps hpe hlt htotal, hlost,
        WithTop.coe_inj, List.sum_map_mul_left]
      simp only [div_eq_mul_inv]
      rw [List.sum_map_mul_right, ← mul_add, ← add_mul]
      have hcast := congrArg (fun n : Int => (n : ℚ)) hunits
      simp only [Int.cast_add, Int.cast_list_sum, List.map_map] at hcast
      exact congrArg (fun x => signed r * (x * _)) hcast

/-! ## What the trend adds up -/

/-- What key `k` is recognized on a day. -/
def dayRevenue (revenue : List Revenue) (dim : MarginDimension) (k : String) (day : Int) : Figure :=
  ((revenue.filter fun r => dimKey dim r == k).map fun r => dayRecognized r day).sum

/-- What key `k` costs on a day. -/
def dayCost (dailyCost : List DailyKeyCost) (k : String) (day : Int) : ℚ :=
  ((dailyCost.filter fun c => c.key == k && c.day == dayString day).map DailyKeyCost.costUsd).sum

section Spec

variable {revenue : List Revenue} {dailyCost : List DailyKeyCost} {dim : MarginDimension}
  {startDay : Int} {days : ℕ}

theorem cell_trendRevenue (k : String) {i : ℕ} (hi : i < days) :
    (trendRevenue revenue dim startDay days).cell k (dayString (startDay + i)) =
      dayRevenue revenue dim k (startDay + i) := by
  unfold trendRevenue dayRevenue revenuePostings
  rw [OrdMap.cell_crossTally, OrdMap.sum_filter_eq, OrdMap.sum_filter_eq, OrdMap.sum_map_flatMap]
  congr 1
  apply List.map_congr_left
  intro r hr
  rw [OrdMap.sum_map_filterMap]
  -- of the days of `r`, only this one has the text
  have hterm : ∀ j ∈ List.range days,
      (if dayRecognized r (startDay + j) ≠ 0 then
        some (dimKey dim r, dayString (startDay + j), dayRecognized r (startDay + j))
      else none).elim 0
          (fun p => if (p.1 == k && p.2.1 == dayString (startDay + i)) = true then p.2.2 else 0) =
      if j = i then (if dimKey dim r == k then dayRecognized r (startDay + i) else 0) else 0 := by
    intro j hj
    have hdate : dayString (startDay + j) = dayString (startDay + i) ↔ j = i := by
      rw [dayString_injective.eq_iff]
      omega
    by_cases hji : j = i
    · subst hji
      by_cases hzero : dayRecognized r (startDay + j) = 0
      · simp [hzero]
      · simp [hzero]
    · by_cases hzero : dayRecognized r (startDay + j) = 0
      · simp [hzero, hji]
      · simp [hzero, hji, hdate]
  rw [List.map_congr_left hterm, Group.sum_single List.nodup_range (List.mem_range.2 hi)]

theorem cell_trendCost (k : String) {i : ℕ} (hi : i < days) :
    (trendCost dailyCost startDay days).cell k (dayString (startDay + i)) =
      dayCost dailyCost k (startDay + i) := by
  unfold trendCost dayCost
  rw [OrdMap.cell_crossTally, List.filter_filter]
  congr 2
  apply List.filter_congr
  intro c hc
  have hin : c.day = dayString (startDay + i) → c.day ∈ dayStrings startDay days := fun h =>
    List.mem_map.2 ⟨i, List.mem_range.2 hi, h.symm⟩
  by_cases hday : c.day = dayString (startDay + i)
  · simp [hday ▸ hin hday, hday]
  · simp [hday]

/-- The series of key `k`, from the events and costs themselves. -/
def seriesOf (revenue : List Revenue) (dailyCost : List DailyKeyCost) (dim : MarginDimension)
    (startDay : Int) (days : ℕ) (k : String) : MarginTrendSeries where
  key := k
  points := (List.range days).map fun i : ℕ => pointOf (dayString (startDay + i))
    (dayRevenue revenue dim k (startDay + i)) (dayCost dailyCost k (startDay + i))
  totalRevenueUsd :=
    ((List.range days).map fun i : ℕ => dayRevenue revenue dim k (startDay + i)).sum.round
  totalCostUsd := round6 ((List.range days).map fun i : ℕ => dayCost dailyCost k (startDay + i)).sum
  totalMarginUsd :=
    (((List.range days).map fun i : ℕ => dayRevenue revenue dim k (startDay + i)).sum.less
      ((List.range days).map fun i : ℕ => dayCost dailyCost k (startDay + i)).sum).round

theorem allSeries_eq : allSeries revenue dailyCost dim startDay days =
    (trendKeys revenue dailyCost dim startDay days).map
      (seriesOf revenue dailyCost dim startDay days) := by
  unfold allSeries
  apply List.map_congr_left
  intro k hk
  -- a cell of either map holds what falls on its day
  have hr : ∀ i ∈ List.range days,
      (((trendRevenue revenue dim startDay days).get k).bind
        fun m => m.get (dayString (startDay + i))).getD 0 =
      dayRevenue revenue dim k (startDay + i) := fun i hi =>
    cell_trendRevenue k (List.mem_range.1 hi)
  have hc : ∀ i ∈ List.range days,
      (((trendCost dailyCost startDay days).get k).bind
        fun m => m.get (dayString (startDay + i))).getD 0 =
      dayCost dailyCost k (startDay + i) := fun i hi =>
    cell_trendCost k (List.mem_range.1 hi)
  unfold buildSeries seriesOf dayStrings
  simp only [List.map_map, Function.comp_def]
  rw [List.map_congr_left hr, List.map_congr_left hc]
  congr 1
  apply List.map_congr_left
  intro i hi
  rw [hr i hi, hc i hi]

end Spec

end Margin

end LightTrack
