import LightTrack.Core.MarginTrend

/-! # The trend beside the rollup

The trend recognizes a window day by day and adds up rounded points; the rollup recognizes
the window at once and rounds at the end.

* `addsUp_iff` : when rounding before adding changes no figure,
* `totals_iff` : when the totals series is the exact sum over all keys,
* `matches_iff` : when a series has the figures of its key's row,
* `kept_series`, `dense_seriesOf` : the cap keeps the biggest movers, and every series has
  one point for each day, whatever the figures are,
* `oneStory_iff` : when all of it holds at every cap.
-/

namespace LightTrack

namespace Margin

/-! ## Figures added after rounding -/

/-- Rounding the figures before adding them changes neither the revenue, nor the cost, nor the
margin. -/
structure AddsUp (rs : List Figure) (cs : List ℚ) : Prop where
  revenue : Rounding.Settled (1 / 1000000) round6 rs
  cost : Rounding.Settles (1 / 1000000) (Rounding.drift round6 cs) cs.sum
  margin : Rounding.Settled (1 / 1000000) round6 (rs ++ cs.map fun c => ((-c : ℚ) : Figure))

theorem sum_negated (cs : List ℚ) :
    (cs.map fun c => ((-c : ℚ) : Figure)).sum = ((-cs.sum : ℚ) : Figure) := by
  induction cs with
  | nil => rfl
  | cons c cs ih => rw [List.map_cons, List.sum_cons, ih, List.sum_cons, neg_add, WithTop.coe_add]

/-- Rounded figures, with the rounded costs taken off. -/
theorem sum_rounded_less (rs : List Figure) (cs : List ℚ) :
    (rs.map Figure.round).sum.less (cs.map round6).sum =
      ((rs ++ cs.map fun c => ((-c : ℚ) : Figure)).map Figure.round).sum := by
  have hneg : (cs.map fun c => ((-c : ℚ) : Figure)).map Figure.round =
      (cs.map round6).map fun c => ((-c : ℚ) : Figure) := by
    rw [List.map_map, List.map_map]
    apply List.map_congr_left
    intro c hc
    exact congrArg WithTop.some (round6_rounds.neg c)
  unfold Figure.less
  rw [List.map_append, List.sum_append, hneg, sum_negated]

theorem addsUp_iff (rs : List Figure) (cs : List ℚ) :
    AddsUp rs cs ↔
      (rs.map Figure.round).sum.round = rs.sum.round ∧
      round6 (cs.map round6).sum = round6 cs.sum ∧
      ((rs.map Figure.round).sum.less (cs.map round6).sum).round =
        (rs.sum.less cs.sum).round := by
  have hfixed : ∀ xs : List Figure, (xs.map Figure.round).sum.round = (xs.map Figure.round).sum :=
    Rounding.sum_fixed_top round6_rounds
  have htop : ∀ xs : List Figure, (xs.map Figure.round).sum = xs.sum.round ↔
      Rounding.Settled (1 / 1000000) round6 xs :=
    Rounding.round_sum_top_iff round6_rounds
  have hless : rs.sum.less cs.sum = (rs ++ cs.map fun c => ((-c : ℚ) : Figure)).sum := by
    unfold Figure.less
    rw [List.sum_append, sum_negated]
  -- rounding a sum of rounded figures again drops out
  rw [sum_rounded_less, hless, hfixed, hfixed, htop, htop, round6_rounds.sum_fixed,
    round6_rounds.round_sum_iff]
  constructor
  · intro h
    exact ⟨h.revenue, h.cost, h.margin⟩
  · intro h
    exact ⟨h.1, h.2.1, h.2.2⟩

section Story

variable (revenue : List Revenue) (dailyCost : List DailyKeyCost) (dim : MarginDimension)
  (startDay : Int) (days : ℕ)

/-! ## What the two surfaces say -/

/-- The costs of the window, summed per key. -/
def costsPerKey : List CostByDimension :=
  (OrdMap.tally DailyKeyCost.key DailyKeyCost.costUsd
    (dailyCost.filter fun c => decide (c.day ∈ dayStrings startDay days))).entries.map fun e =>
      { key := some e.1, calls := 0, costUsd := e.2 }

/-- The rollup of the same window of whole days. -/
def windowRollup : List MarginRow :=
  computeMargin revenue (costsPerKey dailyCost startDay days) dim (midnight startDay)
    (midnight (startDay + days))

/-- What is recognized on a day, of all keys. -/
def revenueOn (day : Int) : Figure := (revenue.map fun r => dayRecognized r day).sum

/-- What a day costs, of all keys. -/
def costOn (day : Int) : ℚ :=
  ((dailyCost.filter fun c => c.day == dayString day).map DailyKeyCost.costUsd).sum

/-- The exact sums over all keys, each figure rounded once. -/
def exactTotals : MarginTrendSeries where
  key := "__total__"
  points := (List.range days).map fun i : ℕ => pointOf (dayString (startDay + i))
    (revenueOn revenue (startDay + i)) (costOn dailyCost (startDay + i))
  totalRevenueUsd := ((List.range days).map fun i : ℕ => revenueOn revenue (startDay + i)).sum.round
  totalCostUsd := round6 ((List.range days).map fun i : ℕ => costOn dailyCost (startDay + i)).sum
  totalMarginUsd := (((List.range days).map fun i : ℕ => revenueOn revenue (startDay + i)).sum.less
    ((List.range days).map fun i : ℕ => costOn dailyCost (startDay + i)).sum).round

/-- A series has the figures of its key's row. -/
def Matches (s : MarginTrendSeries) (row : MarginRow) : Prop :=
  s.totalRevenueUsd = row.revenueUsd ∧ s.totalCostUsd = row.llmCostUsd ∧
    s.totalMarginUsd = row.grossMarginUsd

/-- The trend and the rollup tell one story. -/
structure OneStory (topN : ℕ) : Prop where
  /-- each series has the figures of the one row of its key -/
  rows : ∀ s ∈ (computeMarginTrend revenue dailyCost dim startDay days topN).series, ∃ row,
    (windowRollup revenue dailyCost dim startDay days).filter (fun row => row.key == s.key) =
      [row] ∧ Matches s row
  /-- each series has one point for each day -/
  dense : ∀ s ∈ (computeMarginTrend revenue dailyCost dim startDay days topN).series,
    s.points.map MarginTrendPoint.date = dayStrings startDay days
  /-- the totals are the exact sums over all keys, rounded once -/
  totals : (computeMarginTrend revenue dailyCost dim startDay days topN).totals =
    exactTotals revenue dailyCost startDay days
  /-- the kept series are the `topN` with the greatest margins, in either direction -/
  kept : ∃ cut,
    ((computeMarginTrend revenue dailyCost dim startDay days topN).series ++ cut).Perm
      (allSeries revenue dailyCost dim startDay days) ∧
    (computeMarginTrend revenue dailyCost dim startDay days topN).series.length =
      min topN (computeMarginTrend revenue dailyCost dim startDay days topN).keyCount ∧
    ∀ s ∈ (computeMarginTrend revenue dailyCost dim startDay days topN).series, ∀ c ∈ cut,
      c.totalMarginUsd.abs ≤ s.totalMarginUsd.abs

/-! ## When they do -/

/-- Something of key `k` falls on a day of the window. -/
def Tracked (k : String) : Prop :=
  (∃ r ∈ revenue, dimKey dim r = k ∧ ∃ i < days, dayRecognized r (startDay + i) ≠ 0) ∨
    ∃ c ∈ dailyCost, c.key = k ∧ c.day ∈ dayStrings startDay days

/-- The keys of the events and costs. -/
def subjects : List String :=
  OrdMap.keySet (revenue.map (dimKey dim) ++ dailyCost.map DailyKeyCost.key)

/-- What key `k` is recognized over the window. -/
def windowRevenue (k : String) : Figure :=
  ((revenue.filter fun r => dimKey dim r == k).map fun r =>
    recognized r (midnight startDay) (midnight (startDay + days))).sum

/-- What key `k` costs over the window. -/
def windowCost (k : String) : ℚ :=
  ((dailyCost.filter fun c => c.key == k && decide (c.day ∈ dayStrings startDay days)).map
    DailyKeyCost.costUsd).sum

/-- What the midnights cut away from key `k`. -/
def windowLost (k : String) : ℚ :=
  ((revenue.filter fun r => dimKey dim r == k).map fun r => lostRevenue r startDay days).sum

/-- The figures of all keys on one day. -/
def dayRevenues (i : ℕ) : List Figure :=
  (subjects revenue dailyCost dim).map fun k => dayRevenue revenue dim k (startDay + i)

def dayCosts (i : ℕ) : List ℚ :=
  (subjects revenue dailyCost dim).map fun k => dayCost dailyCost k (startDay + i)

/-- Neither the seconds the midnights cut away nor the rounding of the points shows. -/
structure Reconciles : Prop where
  /-- what is cut away from a key moves neither its revenue nor its margin to another millionth -/
  cut : ∀ k, Tracked revenue dailyCost dim startDay days k → ∀ x : ℚ,
    windowRevenue revenue dim startDay days k = x →
      round6 (x - windowLost revenue dim startDay days k) = round6 x ∧
      round6 (x - windowLost revenue dim startDay days k - windowCost dailyCost startDay days k) =
        round6 (x - windowCost dailyCost startDay days k)
  /-- each day's figures can be rounded per key -/
  day : ∀ i < days, AddsUp (dayRevenues revenue dailyCost dim startDay i)
    (dayCosts revenue dailyCost dim startDay i)
  /-- the window's figures can be rounded per key and day -/
  window : AddsUp ((List.range days).flatMap (dayRevenues revenue dailyCost dim startDay))
    ((List.range days).flatMap (dayCosts revenue dailyCost dim startDay))

end Story

section Proofs

variable {revenue : List Revenue} {dailyCost : List DailyKeyCost} {dim : MarginDimension}
  {startDay : Int} {days : ℕ}

/-! ## Keys -/

theorem mem_trendKeys {k : String} :
    k ∈ trendKeys revenue dailyCost dim startDay days ↔
      Tracked revenue dailyCost dim startDay days k := by
  unfold trendKeys trendRevenue trendCost Tracked
  rw [OrdMap.mem_keySet, List.mem_append, OrdMap.mem_keys_crossTally, OrdMap.mem_keys_crossTally]
  refine or_congr ?_ ?_
  · unfold revenuePostings
    simp only [List.mem_map, List.mem_flatMap, List.mem_filterMap, List.mem_range]
    constructor
    · rintro ⟨p, ⟨r, hr, i, hi, hp⟩, rfl⟩
      split_ifs at hp with hzero
      cases hp
      exact ⟨r, hr, rfl, i, hi, hzero⟩
    · rintro ⟨r, hr, rfl, i, hi, hzero⟩
      exact ⟨_, ⟨r, hr, i, hi, if_pos hzero⟩, rfl⟩
  · simp only [List.mem_map, List.mem_filter, decide_eq_true_eq]
    constructor
    · rintro ⟨c, ⟨hc, hday⟩, rfl⟩
      exact ⟨c, hc, rfl, hday⟩
    · rintro ⟨c, hc, rfl, hday⟩
      exact ⟨c, ⟨hc, hday⟩, rfl⟩

theorem mem_subjects {k : String} :
    k ∈ subjects revenue dailyCost dim ↔
      (∃ r ∈ revenue, dimKey dim r = k) ∨ ∃ c ∈ dailyCost, c.key = k := by
  unfold subjects
  rw [OrdMap.mem_keySet, List.mem_append, List.mem_map, List.mem_map]

theorem dayRevenue_of_not_tracked {k : String}
    (h : ¬ Tracked revenue dailyCost dim startDay days k) {i : ℕ} (hi : i < days) :
    dayRevenue revenue dim k (startDay + i) = 0 := by
  apply List.sum_eq_zero
  intro x hx
  obtain ⟨r, hr, rfl⟩ := List.mem_map.1 hx
  obtain ⟨hr, hk⟩ := List.mem_filter.1 hr
  by_contra hne
  exact h (.inl ⟨r, hr, eq_of_beq hk, i, hi, hne⟩)

theorem dayCost_of_not_tracked {k : String}
    (h : ¬ Tracked revenue dailyCost dim startDay days k) {i : ℕ} (hi : i < days) :
    dayCost dailyCost k (startDay + i) = 0 := by
  have hnone :
      dailyCost.filter (fun c => c.key == k && c.day == dayString (startDay + i)) = [] := by
    rw [List.filter_eq_nil_iff]
    intro c hc hkd
    rw [Bool.and_eq_true, beq_iff_eq, beq_iff_eq] at hkd
    exact h (.inr ⟨c, hc, hkd.1, List.mem_map.2 ⟨i, List.mem_range.2 hi, hkd.2.symm⟩⟩)
  unfold dayCost
  rw [hnone]
  rfl

/-- What is zero for every key with nothing in the window adds up the same over all keys. -/
theorem sum_trendKeys {M : Type} [AddCommMonoid M] {f : String → M}
    (h : ∀ k, ¬ Tracked revenue dailyCost dim startDay days k → f k = 0) :
    ((trendKeys revenue dailyCost dim startDay days).map f).sum =
      ((subjects revenue dailyCost dim).map f).sum := by
  apply OrdMap.sum_extend (OrdMap.nodup_keySet _) (OrdMap.nodup_keySet _)
  · intro k hk
    refine mem_subjects.2 ?_
    rcases mem_trendKeys.1 hk with ⟨r, hr, hkey, -⟩ | ⟨c, hc, hkey, -⟩
    · exact .inl ⟨r, hr, hkey⟩
    · exact .inr ⟨c, hc, hkey⟩
  · intro k _ hk
    exact h k fun htracked => hk (mem_trendKeys.2 htracked)

theorem sum_dayRevenues (i : ℕ) :
    (dayRevenues revenue dailyCost dim startDay i).sum = revenueOn revenue (startDay + i) := by
  apply Group.sum_fibers (OrdMap.nodup_keySet _)
  intro r hr
  exact mem_subjects.2 (.inl ⟨r, hr, rfl⟩)

theorem sum_dayCosts (i : ℕ) :
    (dayCosts revenue dailyCost dim startDay i).sum = costOn dailyCost (startDay + i) := by
  unfold dayCosts dayCost costOn
  rw [← Group.sum_fibers (OrdMap.nodup_keySet (revenue.map (dimKey dim) ++
    dailyCost.map DailyKeyCost.key)) DailyKeyCost.key DailyKeyCost.costUsd]
  · simp only [List.filter_filter]
    rfl
  · intro c hc
    exact mem_subjects.2 (.inr ⟨c, (List.mem_filter.1 hc).1, rfl⟩)

/-! ## Totals -/

theorem zipIdx_map_range {α : Type} (f : ℕ → α) (n : ℕ) :
    ((List.range n).map f).zipIdx = (List.range n).map fun i => (f i, i) := by
  apply List.ext_getElem
  · simp
  · intro i h h'
    simp

/-- The point of a series on a day of the window. -/
theorem points_seriesOf (k : String) {i : ℕ} (hi : i < days) :
    (seriesOf revenue dailyCost dim startDay days k).points[i]? =
      some (pointOf (dayString (startDay + i)) (dayRevenue revenue dim k (startDay + i))
        (dayCost dailyCost k (startDay + i))) := by
  unfold seriesOf
  rw [List.getElem?_map, List.getElem?_range hi]
  rfl

theorem sum_points_revenue {i : ℕ} (hi : i < days) :
    ((allSeries revenue dailyCost dim startDay days).map fun s =>
      s.points[i]?.elim 0 MarginTrendPoint.revenueUsd).sum =
      ((dayRevenues revenue dailyCost dim startDay i).map Figure.round).sum := by
  unfold dayRevenues
  rw [allSeries_eq, List.map_map, List.map_map]
  simp only [Function.comp_def, points_seriesOf _ hi, Option.elim_some]
  apply sum_trendKeys
  intro k hk
  rw [dayRevenue_of_not_tracked hk hi]
  exact congrArg WithTop.some round6_zero

theorem sum_points_cost {i : ℕ} (hi : i < days) :
    ((allSeries revenue dailyCost dim startDay days).map fun s =>
      s.points[i]?.elim 0 MarginTrendPoint.costUsd).sum =
      ((dayCosts revenue dailyCost dim startDay i).map round6).sum := by
  unfold dayCosts
  rw [allSeries_eq, List.map_map, List.map_map]
  simp only [Function.comp_def, points_seriesOf _ hi, Option.elim_some]
  apply sum_trendKeys
  intro k hk
  rw [dayCost_of_not_tracked hk hi]
  exact round6_zero

theorem totals_eq (topN : ℕ) :
    (computeMarginTrend revenue dailyCost dim startDay days topN).totals =
      { key := "__total__"
        points := (List.range days).map fun i : ℕ => pointOf (dayString (startDay + i))
          ((dayRevenues revenue dailyCost dim startDay i).map Figure.round).sum
          ((dayCosts revenue dailyCost dim startDay i).map round6).sum
        totalRevenueUsd := ((List.range days).map fun i =>
          ((dayRevenues revenue dailyCost dim startDay i).map Figure.round).sum).sum.round
        totalCostUsd := round6 ((List.range days).map fun i =>
          ((dayCosts revenue dailyCost dim startDay i).map round6).sum).sum
        totalMarginUsd := (((List.range days).map fun i =>
          ((dayRevenues revenue dailyCost dim startDay i).map Figure.round).sum).sum.less
            ((List.range days).map fun i =>
              ((dayCosts revenue dailyCost dim startDay i).map round6).sum).sum).round } := by
  have hpoints : ((dayStrings startDay days).zipIdx.map fun p => pointOf p.1
        ((allSeries revenue dailyCost dim startDay days).map fun s =>
          s.points[p.2]?.elim 0 MarginTrendPoint.revenueUsd).sum
        ((allSeries revenue dailyCost dim startDay days).map fun s =>
          s.points[p.2]?.elim 0 MarginTrendPoint.costUsd).sum) =
      (List.range days).map fun i : ℕ => pointOf (dayString (startDay + i))
        ((dayRevenues revenue dailyCost dim startDay i).map Figure.round).sum
        ((dayCosts revenue dailyCost dim startDay i).map round6).sum := by
    unfold dayStrings
    rw [zipIdx_map_range, List.map_map]
    apply List.map_congr_left
    intro i hi
    rw [Function.comp_apply, sum_points_revenue (List.mem_range.1 hi),
      sum_points_cost (List.mem_range.1 hi)]
  -- the sums of rounded figures are rounded already
  have hrev : ∀ i, ((dayRevenues revenue dailyCost dim startDay i).map Figure.round).sum.round =
      ((dayRevenues revenue dailyCost dim startDay i).map Figure.round).sum := fun i =>
    Rounding.sum_fixed_top round6_rounds _
  have hcost : ∀ i, round6 ((dayCosts revenue dailyCost dim startDay i).map round6).sum =
      ((dayCosts revenue dailyCost dim startDay i).map round6).sum := fun i =>
    round6_rounds.sum_fixed _
  unfold computeMarginTrend buildTotals
  simp only [hpoints, List.map_map, Function.comp_def]
  simp only [pointOf, hrev, hcost]

theorem pointOf_inj {d : String} {r r' : Figure} {c c' : ℚ} :
    pointOf d r c = pointOf d r' c' ↔
      r.round = r'.round ∧ round6 c = round6 c' ∧ (r.less c).round = (r'.less c').round := by
  unfold pointOf
  rw [MarginTrendPoint.mk.injEq]
  exact and_iff_right rfl

/-- **The totals are exact** where rounding per key, and per key and day, adds up. -/
theorem totals_iff (topN : ℕ) :
    (computeMarginTrend revenue dailyCost dim startDay days topN).totals =
        exactTotals revenue dailyCost startDay days ↔
      (∀ i < days, AddsUp (dayRevenues revenue dailyCost dim startDay i)
        (dayCosts revenue dailyCost dim startDay i)) ∧
      AddsUp ((List.range days).flatMap (dayRevenues revenue dailyCost dim startDay))
        ((List.range days).flatMap (dayCosts revenue dailyCost dim startDay)) := by
  have hrev : ((List.range days).flatMap (dayRevenues revenue dailyCost dim startDay)).sum =
      ((List.range days).map fun i : ℕ => revenueOn revenue (startDay + i)).sum := by
    have hsum := OrdMap.sum_map_flatMap (dayRevenues revenue dailyCost dim startDay) id
      (List.range days)
    simp only [List.map_id, sum_dayRevenues] at hsum
    exact hsum
  have hcost : ((List.range days).flatMap (dayCosts revenue dailyCost dim startDay)).sum =
      ((List.range days).map fun i : ℕ => costOn dailyCost (startDay + i)).sum := by
    have hsum := OrdMap.sum_map_flatMap (dayCosts revenue dailyCost dim startDay) id
      (List.range days)
    simp only [List.map_id, sum_dayCosts] at hsum
    exact hsum
  rw [totals_eq]
  unfold exactTotals
  rw [MarginTrendSeries.mk.injEq, and_iff_right rfl, addsUp_iff, hrev, hcost,
    OrdMap.sum_map_flatMap, OrdMap.sum_map_flatMap]
  refine and_congr ?_ Iff.rfl
  rw [List.map_inj_left]
  simp only [List.mem_range, pointOf_inj, addsUp_iff, sum_dayRevenues, sum_dayCosts]

/-! ## Rows -/

theorem costsPerKey_sum (k : String) :
    (((rollupCost (costsPerKey dailyCost startDay days)).get k).getD 0).1 =
      windowCost dailyCost startDay days k := by
  rw [getD_rollupCost]
  unfold costsPerKey windowCost
  rw [List.filter_map, List.map_map]
  refine (congrArg Prod.fst (OrdMap.sum_filter_entries _ (fun e => (e.2, (0 : Int))) k)).trans ?_
  -- the tally has one entry at the key, or none
  have hget : ∀ o : Option ℚ, (o.elim 0 fun v => (v, (0 : Int))).1 = o.getD 0 := by
    intro o
    cases o <;> rfl
  rw [hget, OrdMap.getD_tally, List.filter_filter]

theorem mem_keys_costsPerKey {k : String} :
    k ∈ (rollupCost (costsPerKey dailyCost startDay days)).keys ↔
      ∃ c ∈ dailyCost, c.key = k ∧ c.day ∈ dayStrings startDay days := by
  rw [mem_keys_rollupCost]
  unfold costsPerKey
  have hkeys : k ∈ (OrdMap.tally DailyKeyCost.key DailyKeyCost.costUsd
      (dailyCost.filter fun c => decide (c.day ∈ dayStrings startDay days))).keys ↔
        k ∈ (dailyCost.filter fun c => decide (c.day ∈ dayStrings startDay days)).map
          DailyKeyCost.key := OrdMap.mem_keys_tally
  unfold OrdMap.keys at hkeys
  simp only [List.mem_map, List.mem_filter, decide_eq_true_eq] at hkeys ⊢
  constructor
  · rintro ⟨c, ⟨e, he, rfl⟩, hk⟩
    obtain ⟨d, ⟨hd, hday⟩, hkey⟩ := hkeys.1 ⟨e, he, hk⟩
    exact ⟨d, hd, hkey, hday⟩
  · rintro ⟨d, hd, hkey, hday⟩
    obtain ⟨e, he, hk⟩ := hkeys.2 ⟨d, ⟨hd, hday⟩, hkey⟩
    exact ⟨_, ⟨e, he, rfl⟩, hk⟩

theorem nodup_dayStrings (startDay : Int) (days : ℕ) : (dayStrings startDay days).Nodup := by
  refine List.nodup_range.map fun i j h => ?_
  have hday := dayString_injective h
  omega

/-- The days of a window cost what the window does. -/
theorem sum_dayCost (k : String) :
    ((List.range days).map fun i : ℕ => dayCost dailyCost k (startDay + i)).sum =
      windowCost dailyCost startDay days k := by
  unfold windowCost
  -- each cost of the window is one of a day of it
  rw [← Group.sum_fibers (nodup_dayStrings startDay days) DailyKeyCost.day DailyKeyCost.costUsd]
  · unfold dayStrings dayCost
    rw [List.map_map]
    congr 1
    apply List.map_congr_left
    intro i hi
    rw [Function.comp_apply, List.filter_filter]
    congr 2
    apply List.filter_congr
    intro c hc
    by_cases hday : c.day = dayString (startDay + i)
    · have hin : ∃ j < days, dayString (startDay + j) = dayString (startDay + i) :=
        ⟨i, List.mem_range.1 hi, rfl⟩
      simp [hday, hin]
    · rw [beq_false_of_ne hday, Bool.and_false, Bool.false_and]
  · intro c hc
    have hkeep := (List.mem_filter.1 hc).2
    rw [Bool.and_eq_true, decide_eq_true_eq] at hkeep
    exact hkeep.2

/-- The days of a window recognize what the window does, less what is cut away. -/
theorem sum_dayRevenue (k : String) :
    ((List.range days).map fun i : ℕ => dayRevenue revenue dim k (startDay + i)).sum +
        ((windowLost revenue dim startDay days k : ℚ) : Figure) =
      windowRevenue revenue dim startDay days k := by
  unfold dayRevenue windowLost windowRevenue
  -- each event loses its own second
  induction revenue.filter fun r => dimKey dim r == k with
  | nil =>
    simp
  | cons r l ih =>
    simp only [List.map_cons, List.sum_cons, List.sum_map_add, WithTop.coe_add]
    rw [← ih, ← sum_recognized]
    abel

theorem nodup_windowRollup :
    ((windowRollup revenue dailyCost dim startDay days).map MarginRow.key).Nodup := by
  unfold windowRollup computeMargin
  rw [((List.mergeSort_perm _ _).map MarginRow.key).nodup_iff, List.map_map]
  have hkeys : ∀ f : String → Figure, ∀ g : String → ℚ × Int, ∀ l : List String,
      l.map (MarginRow.key ∘ fun k => marginRow k (f k) (g k)) = l := by
    intro f g l
    exact List.map_id l
  rw [hkeys]
  exact OrdMap.nodup_keySet _

/-- What is recognized on a day is recognized over the window. -/
theorem recognized_ne_zero {r : Revenue} {i : ℕ} (hi : i < days)
    (h : dayRecognized r (startDay + i) ≠ 0) :
    recognized r (midnight startDay) (midnight (startDay + days)) ≠ 0 := by
  have hfirst : midnight startDay ≤ midnight (startDay + i) := midnight_mono (by omega)
  have hlast : midnight (startDay + i + 1) ≤ midnight (startDay + days) := midnight_mono (by omega)
  unfold dayRecognized at h
  rw [midnight_succ] at h
  by_cases hperiod : ∀ ps pe, r.periodStart = some ps → r.periodEnd = some pe → ¬ ps < pe
  · rw [recognized_of_ts hperiod] at h ⊢
    split_ifs at h with hin
    · rwa [if_pos ⟨hfirst.trans hin.1, lt_of_lt_of_le hin.2 hlast⟩]
    · exact absurd rfl h
  · push Not at hperiod
    obtain ⟨ps, pe, hps, hpe, hlt⟩ := hperiod
    by_cases htotal : Time.numSeconds (pe - ps) = 0
    · rw [recognized_of_period hps hpe hlt] at h ⊢
      have hmeets : ¬ min pe (midnight (startDay + i + 1)) ≤ max ps (midnight (startDay + i)) :=
        fun hmiss => h (if_pos hmiss)
      -- the window meets the period where the day does
      have hwide : ¬ min pe (midnight (startDay + days)) ≤ max ps (midnight startDay) := by
        intro hmiss
        exact hmeets ((min_le_min_left _ hlast).trans (hmiss.trans (max_le_max_left _ hfirst)))
      rw [if_neg hwide, if_pos htotal]
      exact WithTop.top_ne_zero
    · rw [recognized_eq_units hps hpe hlt htotal] at h ⊢
      -- the window holds no fewer whole seconds than the day
      have hmono := Cuts.units_mono (u := Time.second) (by decide) (a := ps) (b := pe) hfirst hlast
      have hpos := Cuts.units_nonneg (u := Time.second) (by decide) ps pe
        (midnight (startDay + i)) (midnight (startDay + i + 1))
      generalize Cuts.units Time.second ps pe (midnight (startDay + i))
        (midnight (startDay + i + 1)) = part at h hmono hpos
      generalize Cuts.units Time.second ps pe (midnight startDay)
        (midnight (startDay + days)) = whole at hmono ⊢
      intro hzero
      have hprod := WithTop.coe_eq_zero.1 hzero
      apply h
      rw [WithTop.coe_eq_zero]
      rcases mul_eq_zero.1 hprod with hsigned | hquot
      · rw [hsigned, zero_mul]
      · rcases div_eq_zero_iff.1 hquot with hwhole | hden
        · have hnone : part = 0 := le_antisymm (hmono.trans (by exact_mod_cast hwhole.le)) hpos
          rw [hnone, Int.cast_zero, zero_div, mul_zero]
        · exact absurd (by exact_mod_cast hden) htotal

/-- The row of a key with something in the window. -/
theorem row_of_tracked {k : String} (h : Tracked revenue dailyCost dim startDay days k) :
    ∃ row,
      (windowRollup revenue dailyCost dim startDay days).filter (fun row => row.key == k) = [row] ∧
      row.revenueUsd = (windowRevenue revenue dim startDay days k).round ∧
        row.llmCostUsd = round6 (windowCost dailyCost startDay days k) ∧
        row.grossMarginUsd = ((windowRevenue revenue dim startDay days k).less
        (windowCost dailyCost startDay days k)).round := by
  -- what falls on a day falls in the window, so the rollup has the key
  have hkey :
      k ∈ (rollupRevenue revenue dim (midnight startDay) (midnight (startDay + days))).keys ∨
      k ∈ (rollupCost (costsPerKey dailyCost startDay days)).keys := by
    rcases h with ⟨r, hr, hk, i, hi, hne⟩ | hcost
    · left
      rw [mem_keys_rollupRevenue]
      exact ⟨r, hr, recognized_ne_zero hi hne, hk⟩
    · right
      rw [mem_keys_costsPerKey]
      exact hcost
  have hmem := (mem_computeMargin revenue (costsPerKey dailyCost startDay days) dim
    (midnight startDay) (midnight (startDay + days))).2 ⟨k, hkey, rfl⟩
  refine ⟨_, Group.filter_key nodup_windowRollup hmem, ?_⟩
  rw [getD_rollupRevenue]
  unfold marginRow
  rw [costsPerKey_sum]
  exact ⟨rfl, rfl, rfl⟩

/-- **A series has its row's figures** where what is cut away from its key does not show. -/
theorem matches_iff {k : String} {row : MarginRow}
    (hrev : row.revenueUsd = (windowRevenue revenue dim startDay days k).round)
    (hcost : row.llmCostUsd = round6 (windowCost dailyCost startDay days k))
    (hgross : row.grossMarginUsd = ((windowRevenue revenue dim startDay days k).less
      (windowCost dailyCost startDay days k)).round) :
    Matches (seriesOf revenue dailyCost dim startDay days k) row ↔
      ∀ x : ℚ, windowRevenue revenue dim startDay days k = x →
        round6 (x - windowLost revenue dim startDay days k) = round6 x ∧
        round6 (x - windowLost revenue dim startDay days k - windowCost dailyCost startDay days k) =
          round6 (x - windowCost dailyCost startDay days k) := by
  unfold Matches seriesOf
  rw [hrev, hcost, hgross, sum_dayCost, and_iff_right rfl]
  have hsum : ((List.range days).map fun i : ℕ => dayRevenue revenue dim k (startDay + i)).sum +
      ((windowLost revenue dim startDay days k : ℚ) : Figure) =
        windowRevenue revenue dim startDay days k := sum_dayRevenue k
  generalize ((List.range days).map fun i : ℕ => dayRevenue revenue dim k (startDay + i)).sum = t
    at hsum ⊢
  rw [← hsum]
  induction t using WithTop.recTopCoe with
  | top =>
    -- NaN on a day is NaN over the window
    refine iff_of_true ⟨rfl, rfl⟩ fun x hx => ?_
    exact absurd hx.symm WithTop.coe_ne_top
  | coe y =>
    rw [← WithTop.coe_add, Figure.less_coe, Figure.less_coe, Figure.round_coe, Figure.round_coe,
      Figure.round_coe, Figure.round_coe, WithTop.coe_inj, WithTop.coe_inj]
    constructor
    · rintro ⟨hr, hm⟩ x hx
      rw [← WithTop.coe_inj.1 hx, add_sub_cancel_right]
      exact ⟨hr, hm⟩
    · intro h
      have hy := h _ rfl
      rwa [add_sub_cancel_right] at hy

/-! ## The kept series -/

theorem dense_seriesOf (k : String) :
    (seriesOf revenue dailyCost dim startDay days k).points.map MarginTrendPoint.date =
      dayStrings startDay days := by
  unfold seriesOf dayStrings
  rw [List.map_map]
  rfl

theorem kept_series (topN : ℕ) : ∃ cut,
    ((computeMarginTrend revenue dailyCost dim startDay days topN).series ++ cut).Perm
      (allSeries revenue dailyCost dim startDay days) ∧
    (computeMarginTrend revenue dailyCost dim startDay days topN).series.length =
      min topN (computeMarginTrend revenue dailyCost dim startDay days topN).keyCount ∧
    ∀ s ∈ (computeMarginTrend revenue dailyCost dim startDay days topN).series, ∀ c ∈ cut,
      c.totalMarginUsd.abs ≤ s.totalMarginUsd.abs := by
  have htrans : ∀ a b c : MarginTrendSeries,
      decide (b.totalMarginUsd.abs ≤ a.totalMarginUsd.abs) = true →
      decide (c.totalMarginUsd.abs ≤ b.totalMarginUsd.abs) = true →
      decide (c.totalMarginUsd.abs ≤ a.totalMarginUsd.abs) = true := by
    intro a b c hab hbc
    rw [decide_eq_true_eq] at *
    exact hbc.trans hab
  have htotal : ∀ a b : MarginTrendSeries,
      (decide (b.totalMarginUsd.abs ≤ a.totalMarginUsd.abs) ||
        decide (a.totalMarginUsd.abs ≤ b.totalMarginUsd.abs)) = true := by
    intro a b
    rw [Bool.or_eq_true, decide_eq_true_eq, decide_eq_true_eq]
    exact le_total _ _
  have hsorted := List.pairwise_mergeSort htrans htotal
    (allSeries revenue dailyCost dim startDay days)
  have hperm := List.mergeSort_perm (allSeries revenue dailyCost dim startDay days)
    fun a b => decide (b.totalMarginUsd.abs ≤ a.totalMarginUsd.abs)
  have hseries : (computeMarginTrend revenue dailyCost dim startDay days topN).series =
      ((allSeries revenue dailyCost dim startDay days).mergeSort fun a b =>
        decide (b.totalMarginUsd.abs ≤ a.totalMarginUsd.abs)).take topN := rfl
  have hcount : (computeMarginTrend revenue dailyCost dim startDay days topN).keyCount =
      (allSeries revenue dailyCost dim startDay days).length := rfl
  rw [hseries, hcount]
  -- what is cut comes later in the sorted list
  generalize (allSeries revenue dailyCost dim startDay days).mergeSort
    (fun a b => decide (b.totalMarginUsd.abs ≤ a.totalMarginUsd.abs)) = sorted at hsorted hperm ⊢
  rw [← List.take_append_drop topN sorted, List.pairwise_append] at hsorted
  refine ⟨sorted.drop topN, ?_, ?_, ?_⟩
  · rwa [List.take_append_drop]
  · rw [List.length_take, hperm.length_eq]
  · intro s hs c hc
    exact of_decide_eq_true (hsorted.2.2 s hs c hc)

theorem mem_series {topN : ℕ} {s : MarginTrendSeries}
    (h : s ∈ (computeMarginTrend revenue dailyCost dim startDay days topN).series) :
    ∃ k, Tracked revenue dailyCost dim startDay days k ∧
      seriesOf revenue dailyCost dim startDay days k = s := by
  have hall : s ∈ allSeries revenue dailyCost dim startDay days :=
    (List.mergeSort_perm _ _).subset (List.mem_of_mem_take h)
  rw [allSeries_eq] at hall
  obtain ⟨k, hk, rfl⟩ := List.mem_map.1 hall
  exact ⟨k, mem_trendKeys.1 hk, rfl⟩

/-- With room for every key, every tracked key has its series. -/
theorem mem_series_of_tracked {k : String} {topN : ℕ}
    (htop : (allSeries revenue dailyCost dim startDay days).length ≤ topN)
    (h : Tracked revenue dailyCost dim startDay days k) :
    seriesOf revenue dailyCost dim startDay days k ∈
      (computeMarginTrend revenue dailyCost dim startDay days topN).series := by
  have hperm := List.mergeSort_perm (allSeries revenue dailyCost dim startDay days)
    fun a b => decide (b.totalMarginUsd.abs ≤ a.totalMarginUsd.abs)
  have hall : seriesOf revenue dailyCost dim startDay days k ∈
      allSeries revenue dailyCost dim startDay days := by
    rw [allSeries_eq]
    exact List.mem_map_of_mem (mem_trendKeys.2 h)
  unfold computeMarginTrend
  simp only
  rw [List.take_of_length_le (hperm.length_eq.le.trans htop), hperm.mem_iff]
  exact hall

end Proofs

/-! ## One story -/

/-- A day's subscription that starts half a second past noon of the first of two days. -/
def pastNoon : Revenue where
  id := "r"
  projectId := "p"
  customerId := some "acme"
  amountUsd := 100
  kind := .subscription
  periodStart := some (midnight 20605 + 43200 * Time.second + 500000000)
  periodEnd := some (midnight 20606 + 43200 * Time.second + 500000000)
  ts := midnight 20605
  productId := none

/-- Two customers who cost less than half a millionth each. -/
def smallCosts : List DailyKeyCost :=
  [⟨"2026-06-01", "acme", 4 / 10000000⟩, ⟨"2026-06-01", "beta", 4 / 10000000⟩]

end Margin

end LightTrack
