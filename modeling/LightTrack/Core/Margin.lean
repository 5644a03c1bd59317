import LightTrack.Core.Forecast
import LightTrack.Lib.Rounding
import LightTrack.Lib.Tally
import LightTrack.Store.Threshold

/-! # Margin per customer or product

`computeMargin` nets the revenue recognized in a window against the costs attributed in
it, one row for each key.

* `round6_rounds` : figures are reported to the nearest millionth, halves away from zero,
* `mem_computeMargin` : the rows are those of the keys with recognized revenue or a cost,
* `getD_rollupRevenue`, `getD_rollupCost` : what a row's figures add up.
-/

namespace LightTrack

/-! ## Rounding to a millionth -/

theorem roundAway_eq_iff (y : ℚ) (n : Int) :
    roundAway y = n ↔ |(n : ℚ) - y| < 1 / 2 ∨ |(n : ℚ) - y| = 1 / 2 ∧ 0 < ((n : ℚ) - y) * y := by
  have hhalf : ∀ m : Int, (2 * m : ℚ) ≠ 1 := by
    intro m h
    have hcast : 2 * m = 1 := by exact_mod_cast h
    omega
  unfold roundAway
  rw [abs_lt, abs_eq (by norm_num)]
  split_ifs with hy
  · rw [Int.floor_eq_iff]
    constructor
    · rintro ⟨hlow, hhigh⟩
      rcases lt_or_eq_of_le (show (n : ℚ) - y ≤ 1 / 2 by linarith) with hlt | heq
      · exact .inl ⟨by linarith, hlt⟩
      · -- a half is rounded up, away from zero
        have hpos : 0 < y := lt_of_le_of_ne hy fun h => hhalf n (by linarith)
        exact .inr ⟨.inl heq, by rw [heq]; linarith⟩
    · rintro (⟨hlow, hhigh⟩ | ⟨heq | heq, hsign⟩)
      · constructor <;> linarith
      · constructor <;> linarith
      · rw [heq] at hsign
        linarith
  · rw [neg_eq_iff_eq_neg, Int.floor_eq_iff, Int.cast_neg]
    rw [not_le] at hy
    constructor
    · rintro ⟨hlow, hhigh⟩
      rcases lt_or_eq_of_le (show -(1 / 2) ≤ (n : ℚ) - y by linarith) with hlt | heq
      · exact .inl ⟨hlt, by linarith⟩
      · exact .inr ⟨.inr heq.symm, by rw [← heq]; linarith⟩
    · rintro (⟨hlow, hhigh⟩ | ⟨heq | heq, hsign⟩)
      · constructor <;> linarith
      · rw [heq] at hsign
        linarith
      · constructor <;> linarith

theorem round6_rounds : Rounding.Rounds (1 / 1000000 : ℚ) round6 where
  pos := by norm_num
  grid x := ⟨roundAway (x * 1000000), by unfold round6; ring⟩
  eq_iff x n := by
    have herr : (n : ℚ) * (1 / 1000000) - x = ((n : ℚ) - x * 1000000) / 1000000 := by ring
    have hsign : ((n : ℚ) - x * 1000000) / 1000000 * x =
        ((n : ℚ) - x * 1000000) * (x * 1000000) / 1000000 ^ 2 := by ring
    -- twice the error below one is the error below a half
    have hdouble : ∀ a : ℚ, a / 1000000 + a / 1000000 = a / (1 / 2) / 1000000 := by
      intro a
      ring
    unfold round6 Rounding.Settles
    rw [herr, hsign, abs_div, abs_of_pos (show (0 : ℚ) < 1000000 by norm_num), hdouble,
      div_lt_div_iff_of_pos_right (by norm_num), div_left_inj' (by norm_num),
      div_lt_iff₀ (by norm_num), div_eq_iff (by norm_num), div_eq_iff (by norm_num),
      lt_div_iff₀ (by norm_num), zero_mul, show (n : ℚ) * (1 / 1000000) * 1000000 = n by ring,
      one_mul, Int.cast_inj]
    exact roundAway_eq_iff _ n

theorem round6_zero : round6 0 = 0 := by
  have h := round6_rounds.grid_fixed 0
  rwa [Int.cast_zero, zero_mul] at h

namespace Margin

/-! ## Figures -/

/-- A figure in dollars; `⊤` is NaN, and so is every sum with it. -/
abbrev Figure := WithTop ℚ

/-- `x - c`. -/
def Figure.less (x : Figure) (c : ℚ) : Figure := x + ((-c : ℚ) : Figure)

/-- `round`. -/
def Figure.round (x : Figure) : Figure := x.map round6

@[simp] theorem Figure.less_coe (x c : ℚ) : Figure.less x c = ((x - c : ℚ) : Figure) := by
  rw [sub_eq_add_neg]
  rfl

@[simp] theorem Figure.round_coe (x : ℚ) : Figure.round x = ((round6 x : ℚ) : Figure) := rfl

/-! ## The rollup -/

/-- Label used when cost or revenue carries no customer/product id. -/
def UNATTRIBUTED : String := "unattributed"

/-- Which axis to roll margin up by. -/
inductive MarginDimension where
  | customer
  | product

/-- A revenue record, with the product it is attributed to. -/
structure Revenue extends RevenueEvent where
  productId : Option String

/-- LLM cost aggregated for one dimension value over the window. -/
structure CostByDimension where
  key : Option String
  calls : Int
  costUsd : ℚ

/-- `MarginRow`, with every figure the rollup computes. -/
structure MarginRow where
  key : String
  revenueUsd : Figure
  llmCostUsd : ℚ
  grossMarginUsd : Figure
  marginPct : Option ℚ
  calls : Int

def dimKey (dim : MarginDimension) (r : Revenue) : String :=
  (match dim with
    | .customer => r.customerId
    | .product => r.productId).getD UNATTRIBUTED

/-- `recognized_amount`, as a figure. -/
def recognized (r : Revenue) (since until_ : Time) : Figure :=
  (recognizedAmount r.toRevenueEvent since until_).elim ⊤ WithTop.some

/-- `gross / revenue`, where there is revenue. -/
def marginPct (revenueUsd : Figure) (llmCostUsd : ℚ) : Option ℚ :=
  match revenueUsd with
  | ⊤ => none
  | (x : ℚ) => if 0 < x then some ((x - llmCostUsd) / x) else none

/-- The row of one key. -/
def marginRow (k : String) (revenueUsd : Figure) (cost : ℚ × Int) : MarginRow where
  key := k
  revenueUsd := revenueUsd.round
  llmCostUsd := round6 cost.1
  grossMarginUsd := (revenueUsd.less cost.1).round
  marginPct := marginPct revenueUsd cost.1
  calls := cost.2

section Rollup

variable (revenue : List Revenue) (costs : List CostByDimension) (dim : MarginDimension)
  (since until_ : Time)

/-- `rev` -/
def rollupRevenue : OrdMap String Figure :=
  OrdMap.tally (dimKey dim) (fun r => recognized r since until_)
    (revenue.filter fun r => recognized r since until_ ≠ 0)

/-- `cost` -/
def rollupCost : OrdMap String (ℚ × Int) :=
  OrdMap.tally (fun c => c.key.getD UNATTRIBUTED) (fun c => (c.costUsd, c.calls)) costs

/-- Margin per key over `[since, until)`, the most unprofitable key first. -/
def computeMargin : List MarginRow :=
  let rev := rollupRevenue revenue dim since until_
  let cost := rollupCost costs
  let rows := (OrdMap.keySet (rev.keys ++ cost.keys)).map fun k =>
    marginRow k ((rev.get k).getD 0) ((cost.get k).getD 0)
  rows.mergeSort fun a b => decide (a.grossMarginUsd ≤ b.grossMarginUsd)

/-! ## What a row adds up -/

theorem getD_rollupRevenue (k : String) :
    ((rollupRevenue revenue dim since until_).get k).getD 0 =
      ((revenue.filter fun r => dimKey dim r == k).map fun r => recognized r since until_).sum := by
  unfold rollupRevenue
  rw [OrdMap.getD_tally, List.filter_filter, OrdMap.sum_filter_eq, OrdMap.sum_filter_eq]
  congr 1
  apply List.map_congr_left
  intro r hr
  -- what is skipped for being zero adds nothing
  by_cases hzero : recognized r since until_ = 0
  · simp [hzero]
  · simp [hzero]

theorem getD_rollupCost (k : String) :
    ((rollupCost costs).get k).getD 0 =
      ((costs.filter fun c => c.key.getD UNATTRIBUTED == k).map fun c =>
        (c.costUsd, c.calls)).sum :=
  OrdMap.getD_tally ..

theorem mem_keys_rollupRevenue {k : String} :
    k ∈ (rollupRevenue revenue dim since until_).keys ↔
      ∃ r ∈ revenue, recognized r since until_ ≠ 0 ∧ dimKey dim r = k := by
  unfold rollupRevenue
  rw [OrdMap.mem_keys_tally]
  simp only [List.mem_map, List.mem_filter, decide_eq_true_eq, and_assoc]

theorem mem_keys_rollupCost {k : String} :
    k ∈ (rollupCost costs).keys ↔ ∃ c ∈ costs, c.key.getD UNATTRIBUTED = k := by
  unfold rollupCost
  rw [OrdMap.mem_keys_tally, List.mem_map]

theorem mem_computeMargin {row : MarginRow} :
    row ∈ computeMargin revenue costs dim since until_ ↔
      ∃ k, (k ∈ (rollupRevenue revenue dim since until_).keys ∨ k ∈ (rollupCost costs).keys) ∧
        marginRow k (((rollupRevenue revenue dim since until_).get k).getD 0)
          (((rollupCost costs).get k).getD 0) = row := by
  unfold computeMargin
  rw [(List.mergeSort_perm _ _).mem_iff, List.mem_map]
  simp only [OrdMap.mem_keySet, List.mem_append]

end Rollup

end Margin

end LightTrack
