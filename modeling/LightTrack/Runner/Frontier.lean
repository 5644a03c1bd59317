import LightTrack.Core.Clock
import LightTrack.Lib.Extremum
import LightTrack.Lib.Stable
import LightTrack.Runner.Paired
import Mathlib.Data.Prod.Lex

/-! # The cost–quality frontier

`runner/src/stats/frontier.rs`: the targets of a run no other target dominates, and the cheapest
of them that the run cannot tell apart from the best.

* `dominates_ranked` : dominance, though not transitive, goes down in rank,
* `analyze_sound` : what the frontier and the recommendation keep to.
-/

namespace LightTrack.Stats

/-- One target as the frontier sees it. -/
structure FrontierRow where
  label : String
  mean : ℚ
  genCostUsd : ℚ
  judgedCases : ℕ
  genUnpriced : Bool
  p50Ms : Option ℕ
  p95Ms : Option ℕ
  scores : List CaseScore

structure FrontierInput where
  rows : List FrontierRow
  isPartial : Bool
  partialReason : String

/-- A target with every axis known. Its index in the run is what tells it apart. -/
structure Placed where
  index : ℕ
  row : FrontierRow
  costPerCase : ℚ
  p50 : ℕ
  p95 : ℕ

/-- What the sufficiency test made of one frontier row. -/
inductive Verdict where
  | isBest
  | sufficient (s : Superiority)
  | separated
  | untested (e : Unpairable)

/-- Is `a` at least as good as `b` on every axis and strictly better on one? -/
def dominates (a b : Placed) : Bool :=
  let atLeastAsGood := decide (b.row.mean - EPS ≤ a.row.mean) &&
    decide (a.costPerCase ≤ b.costPerCase + EPS) && decide (a.p50 ≤ b.p50) && decide (a.p95 ≤ b.p95)
  let strictlyBetter := decide (b.row.mean + EPS < a.row.mean) ||
    decide (a.costPerCase < b.costPerCase - EPS) || decide (a.p50 < b.p50) || decide (a.p95 < b.p95)
  atLeastAsGood && strictlyBetter

/-- A target on its axes, or why it has no place on them. -/
def place (row : FrontierRow) (index : ℕ) : Except String Placed :=
  if row.genUnpriced then
    .error ("no price-book entry for its model — generation cost unknown, and an unknown read as " ++
      "$0 would dominate the cost axis")
  else if row.judgedCases = 0 then
    .error "no case was judged, so there is no per-case cost to place it at"
  else
    match row.p50Ms, row.p95Ms with
    | some p50, some p95 => .ok ⟨index, row, row.genCostUsd / row.judgedCases, p50, p95⟩
    | _, _ => .error "no latency recorded — an unknown read as 0ms would dominate both latency axes"

def placed (rows : List FrontierRow) : List Placed :=
  rows.zipIdx.filterMap fun r => (place r.1 r.2).toOption

def excluded (rows : List FrontierRow) : List (String × String) :=
  rows.filterMap fun r =>
    match place r 0 with
    | .error reason => some (r.label, reason)
    | .ok _ => none

/-- Cheapest first, then the higher mean, then the label. -/
def walkOrder (a b : Placed) : Bool :=
  decide (a.costPerCase < b.costPerCase) ||
    decide (a.costPerCase = b.costPerCase) &&
      (decide (b.row.mean < a.row.mean) ||
        decide (a.row.mean = b.row.mean) && decide (a.row.label ≤ b.row.label))

def front (rows : List FrontierRow) : List Placed :=
  (Frontier.undominated dominates (placed rows)).mergeSort walkOrder

/-- The first of the highest means among the targets that produced scores, with its index. -/
def bestOf (rows : List FrontierRow) : Option (FrontierRow × ℕ) :=
  (rows.zipIdx.filter fun r => !r.1.scores.isEmpty).foldl
    (fun best r =>
      match best with
      | none => some r
      | some b => if b.1.mean < r.1.mean then some r else some b)
    none

/-- The best target is never its own candidate. -/
noncomputable def verdictOf (best : FrontierRow × ℕ) (nTargets : ℕ) (c : Placed) : Verdict :=
  if c.index = best.2 then .isBest
  else
    match superiority best.1.scores c.row.scores nTargets with
    | .error e => .untested e
    | .ok s => if s.significant then .separated else .sufficient s

namespace Verdict

/-- Whether the walk ends here. -/
def endsWalk : Verdict → Bool
  | isBest | sufficient _ => true
  | separated | untested _ => false

def isTested : Verdict → Bool
  | sufficient _ | separated => true
  | isBest | untested _ => false

def isSeparated : Verdict → Bool
  | separated => true
  | _ => false

/-- The sample behind a claim: the pairing's, where a test ran. -/
def sample (nCases : ℕ) : Verdict → ℕ × ℕ
  | sufficient s => (s.retained, s.dropped)
  | _ => (nCases, 0)

end Verdict

/-! ## The report -/

/-- The frontier as it is reported. -/
structure FrontierReport where
  axes : String
  nonDominated : List String
  excluded : List (String × String)

/-- What a recommendation carries beside its name. -/
structure Found where
  best : String
  mean : ℚ
  bestMean : ℚ
  costPerCaseUsd : ℚ
  casesDropped : ℕ
  bestJudgedCases : ℕ
  candidatesTested : ℕ
  allCandidatesIndistinguishable : Option Bool
  correction : String
  pValue : Option ℝ

structure Recommendation where
  label : Option String
  note : String
  nCases : ℕ
  alpha : ℚ
  undecidable : List (String × String)
  found : Option Found

def toPlaces (n : ℕ) (x : ℚ) : ℚ := roundAway (x * 10 ^ n) / 10 ^ n

/-- `no_recommendation`. -/
def noRecommendation (note : String) (alpha : ℚ) (nCases : ℕ)
    (undecidable : List (String × String)) : Recommendation where
  label := none
  note
  nCases
  alpha := toPlaces 6 alpha
  undecidable
  found := none

/-- The sentence of a recommendation. -/
def recommendationNote (best : String) (verdict : Verdict) (allIndistinguishable : Option Bool)
    (testedN dropped : ℕ) : String :=
  let note :=
    match verdict, allIndistinguishable with
    | .isBest, _ => best ++ " is also the cheapest row on the frontier, so nothing is given up by " ++
        "choosing it and there is no cheaper target to trade quality against"
    | _, some true => "every candidate on the frontier was indistinguishable from " ++ best ++
        " at n=" ++ toString testedN ++ " — that is a fact about this run's power, not a finding " ++
        "about the models"
    | _, _ => "the run could not show " ++ best ++ " ahead of it at the corrected α"
  if 0 < dropped then
    note ++ ". Paired on the " ++ toString testedN ++ " case(s) both were judged on; " ++
      toString dropped ++ " case(s) were judged by only one of them and are not in this test"
  else note

/-- The recommendation of a candidate the walk ended at. -/
noncomputable def recommend (best : FrontierRow) (cand : Placed) (verdict : Verdict)
    (verdicts : List Verdict) (alpha : ℚ) (pairs : ℕ) (undecidable : List (String × String)) :
    Recommendation :=
  let tested := (verdicts.filter Verdict.isTested).length
  let separated := (verdicts.filter Verdict.isSeparated).length
  let allIndistinguishable := if 0 < tested then some (decide (separated = 0)) else none
  let (testedN, dropped) := verdict.sample best.scores.length
  { label := some cand.row.label
    note := recommendationNote best.label verdict allIndistinguishable testedN dropped
    nCases := testedN
    alpha := toPlaces 6 alpha
    undecidable
    found := some
      { best := best.label
        mean := toPlaces 3 cand.row.mean
        bestMean := toPlaces 3 best.mean
        costPerCaseUsd := toPlaces 8 cand.costPerCase
        casesDropped := dropped
        bestJudgedCases := best.scores.length
        candidatesTested := tested
        allCandidatesIndistinguishable := allIndistinguishable
        correction := "Bonferroni over " ++ toString pairs ++ " target pair(s), family-wise α=0.05"
        pValue :=
          match verdict with
          -- to six places; a p-value is not negative
          | .sufficient s => some (⌊s.p * 10 ^ 6 + 0.5⌋ / 10 ^ 6)
          | _ => none } }

/-- The rows the test could not be run on. -/
def undecidableOf (walk : List (Placed × Verdict)) : List (String × String) :=
  walk.filterMap fun c =>
    match c.2 with
    | .untested e => some (c.1.row.label, "cannot be paired with the best target — " ++ e.reason)
    | _ => none

/-- `analyze`: the frontier and the recommendation. -/
noncomputable def analyze (input : FrontierInput) : FrontierReport × Recommendation :=
  let rows := input.rows
  let nTargets := rows.length
  let pairs := max (nTargets * (nTargets - 1) / 2) 1
  let alpha := bonferroniAlpha ALPHA pairs
  let front := front rows
  let frontier : FrontierReport :=
    { axes := "quality ↑, generation cost per judged case ↓, p50 ↓, p95 ↓"
      nonDominated := front.map fun p => p.row.label
      excluded := excluded rows }
  match bestOf rows with
  | none =>
    (frontier, noRecommendation
      "no target produced any scores, so there is nothing to be cheaper than" alpha 0 [])
  | some best =>
    let nCases := best.1.scores.length
    if nTargets < 2 then
      (frontier, noRecommendation
        "only one target ran — there is nothing to be cheaper than" alpha nCases [])
    else if input.isPartial then
      (frontier, noRecommendation
        ("the run was " ++ input.partialReason ++ " and scored only part of its cases — the sample " ++
          "is systematically incomplete, and a recommendation is a stronger claim than a mean")
        alpha nCases [])
    else
      let walk := front.map fun c => (c, verdictOf best nTargets c)
      match walk.find? fun c => c.2.endsWalk with
      | none =>
        let note :=
          if front.isEmpty then
            "no target could be placed on the cost–quality frontier at all — every row was " ++
              "excluded, for the reasons listed beside it"
          else "no target on the frontier could be shown indistinguishable from " ++ best.1.label ++
            " — every priced candidate was either significantly worse or could not be paired with it"
        (frontier, noRecommendation note alpha nCases (undecidableOf walk))
      | some (cand, verdict) =>
        (frontier, recommend best.1 cand verdict (walk.map Prod.snd) alpha pairs (undecidableOf walk))

/-! ## Dominance -/

/-- Latency first, then what a case costs beyond what it is worth. -/
def rank (p : Placed) : ℕ ×ₗ ℚ := toLex (p.p50 + p.p95, p.costPerCase - p.row.mean)

/-- Each step of dominance goes down: where both latencies stand, one of mean and cost gains more
than the other may lose. -/
theorem dominates_ranked : Frontier.Ranked dominates rank := by
  intro a b h
  unfold dominates at h
  simp only [Bool.and_eq_true, Bool.or_eq_true, decide_eq_true_eq] at h
  rcases h with ⟨⟨⟨⟨hmean, hcost⟩, hp50⟩, hp95⟩, hstrict⟩
  rw [rank, rank, Prod.Lex.toLex_lt_toLex]
  by_cases hlatency : a.p50 + a.p95 < b.p50 + b.p95
  · exact Or.inl hlatency
  · refine Or.inr ⟨by omega, ?_⟩
    rcases hstrict with ((hmean' | hcost') | hlt) | hlt
    · linarith
    · linarith
    · omega
    · omega

/-! ## The walk -/

theorem walkOrder_iff {a b : Placed} : walkOrder a b = true ↔ a.costPerCase < b.costPerCase ∨
    a.costPerCase = b.costPerCase ∧ (b.row.mean < a.row.mean ∨
      b.row.mean = a.row.mean ∧ a.row.label ≤ b.row.label) := by
  simp only [walkOrder, Bool.or_eq_true, Bool.and_eq_true, decide_eq_true_eq,
    @eq_comm _ a.row.mean]

theorem walkOrder_trans (a b c : Placed) (hab : walkOrder a b = true) (hbc : walkOrder b c = true) :
    walkOrder a c = true := by
  rw [walkOrder_iff] at hab hbc ⊢
  refine Stable.lex_trans hab hbc fun hab hbc => ?_
  exact Stable.lex_trans hbc hab fun hbc hab => le_trans hab hbc

theorem walkOrder_total (a b : Placed) : (walkOrder a b || walkOrder b a) = true := by
  rw [Bool.or_eq_true, walkOrder_iff, walkOrder_iff]
  refine Stable.lex_total _ _ ?_
  exact Stable.lex_total _ _ (le_total a.row.label b.row.label)

theorem cost_le_of_walkOrder {a b : Placed} (h : walkOrder a b = true) :
    a.costPerCase ≤ b.costPerCase := by
  rcases walkOrder_iff.1 h with hlt | ⟨heq, -⟩
  · exact hlt.le
  · exact heq.le

theorem front_sorted (rows : List FrontierRow) :
    (front rows).Pairwise fun a b => a.costPerCase ≤ b.costPerCase :=
  (List.pairwise_mergeSort walkOrder_trans walkOrder_total _).imp cost_le_of_walkOrder

theorem mem_front {rows : List FrontierRow} {p : Placed} :
    p ∈ front rows ↔ p ∈ placed rows ∧ ∀ q ∈ placed rows, dominates q p = false := by
  rw [front, List.mem_mergeSort, Frontier.mem_undominated]

/-- What is known of a target that has a place. -/
structure IsPlaced (rows : List FrontierRow) (p : Placed) : Prop where
  row : rows[p.index]? = some p.row
  priced : p.row.genUnpriced = false
  judged : p.row.judgedCases ≠ 0
  p50 : p.row.p50Ms = some p.p50
  p95 : p.row.p95Ms = some p.p95
  cost : p.costPerCase = p.row.genCostUsd / p.row.judgedCases

theorem isPlaced_of_mem {rows : List FrontierRow} {p : Placed} (h : p ∈ placed rows) :
    IsPlaced rows p := by
  rcases List.mem_filterMap.1 h with ⟨⟨row, i⟩, hmem, hplace⟩
  have hrow : rows[i]? = some row := List.mk_mem_zipIdx_iff_getElem?.1 hmem
  unfold place at hplace
  split_ifs at hplace with hpriced hjudged
  · exact nomatch hplace
  · exact nomatch hplace
  · cases h50 : row.p50Ms with
    | none =>
      rw [h50] at hplace
      exact nomatch hplace
    | some p50 =>
      cases h95 : row.p95Ms with
      | none =>
        rw [h50, h95] at hplace
        exact nomatch hplace
      | some p95 =>
        rw [h50, h95] at hplace
        rw [← Option.some.inj hplace]
        exact ⟨hrow, Bool.eq_false_of_not_eq_true hpriced, hjudged, h50, h95, rfl⟩

/-- The best of the targets that produced scores. -/
structure IsBestOf (rows : List FrontierRow) (best : FrontierRow × ℕ) : Prop where
  row : rows[best.2]? = some best.1
  scores : best.1.scores ≠ []
  mean_le : ∀ row ∈ rows, row.scores ≠ [] → row.mean ≤ best.1.mean

/-- The fold keeps the highest mean. -/
theorem foldl_best {l : List (FrontierRow × ℕ)} {acc : Option (FrontierRow × ℕ)}
    {b : FrontierRow × ℕ}
    (h : l.foldl (fun best r =>
      match best with
      | none => some r
      | some b => if b.1.mean < r.1.mean then some r else some b) acc = some b) :
    (acc = some b ∨ b ∈ l) ∧ (∀ a, acc = some a → a.1.mean ≤ b.1.mean) ∧
      ∀ r ∈ l, r.1.mean ≤ b.1.mean := by
  induction l generalizing acc with
  | nil =>
    refine ⟨Or.inl h, fun a ha => ?_, fun r hr => absurd hr List.not_mem_nil⟩
    rw [List.foldl_nil, ha, Option.some.injEq] at h
    rw [h]
  | cons r l ih =>
    rw [List.foldl_cons] at h
    rcases ih h with ⟨hfrom, hacc, hl⟩
    cases acc with
    | none =>
      refine ⟨Or.inr ?_, fun a ha => (nomatch ha), fun r' hr' => ?_⟩
      · rcases hfrom with hfrom | hfrom
        · exact Option.some.inj hfrom ▸ List.mem_cons_self ..
        · exact List.mem_cons_of_mem _ hfrom
      · rcases List.mem_cons.1 hr' with rfl | hr'
        · exact hacc _ rfl
        · exact hl r' hr'
    | some a =>
      simp only at hfrom hacc
      -- the row at the front replaces the best so far only if it is better
      by_cases hlt : a.1.mean < r.1.mean
      · rw [if_pos hlt] at hfrom hacc
        have hr := hacc _ rfl
        refine ⟨Or.inr ?_, fun a' ha' => ?_, fun r' hr' => ?_⟩
        · rcases hfrom with hfrom | hfrom
          · exact Option.some.inj hfrom ▸ List.mem_cons_self ..
          · exact List.mem_cons_of_mem _ hfrom
        · rw [← Option.some.inj ha']
          exact hlt.le.trans hr
        · rcases List.mem_cons.1 hr' with rfl | hr'
          · exact hr
          · exact hl r' hr'
      · rw [if_neg hlt] at hfrom hacc
        refine ⟨hfrom.imp_right (List.mem_cons_of_mem _), hacc, fun r' hr' => ?_⟩
        rcases List.mem_cons.1 hr' with rfl | hr'
        · exact (not_lt.1 hlt).trans (hacc _ rfl)
        · exact hl r' hr'

theorem bestOf_spec {rows : List FrontierRow} {best : FrontierRow × ℕ} (h : bestOf rows = some best) :
    IsBestOf rows best := by
  rcases foldl_best h with ⟨hfrom, -, hmean⟩
  rcases hfrom with hnone | hmem
  · exact nomatch hnone
  · rcases List.mem_filter.1 hmem with ⟨hmem, hscores⟩
    refine ⟨List.mk_mem_zipIdx_iff_getElem?.1 hmem, ?_, fun row hrow hne => ?_⟩
    · intro hnil
      rw [hnil] at hscores
      exact nomatch hscores
    · rcases List.getElem?_of_mem hrow with ⟨i, hi⟩
      refine hmean (row, i) (List.mem_filter.2 ⟨List.mk_mem_zipIdx_iff_getElem?.2 hi, ?_⟩)
      rw [Bool.not_eq_true', List.isEmpty_eq_false_iff]
      exact hne

/-! ## The recommendation -/

/-- The best target itself, or one that the paired test does not show behind it. -/
def Qualifies (best : FrontierRow × ℕ) (nTargets : ℕ) (c : Placed) : Prop :=
  c.index = best.2 ∨
    ∃ s, superiority best.1.scores c.row.scores nTargets = .ok s ∧ s.significant = false

theorem endsWalk_iff {best : FrontierRow × ℕ} {nTargets : ℕ} {c : Placed} :
    (verdictOf best nTargets c).endsWalk = true ↔ Qualifies best nTargets c := by
  unfold verdictOf Qualifies
  by_cases hbest : c.index = best.2
  · rw [if_pos hbest]
    exact ⟨fun _ => Or.inl hbest, fun _ => rfl⟩
  · rw [if_neg hbest, or_iff_right hbest]
    cases hsup : superiority best.1.scores c.row.scores nTargets with
    | error e => exact ⟨fun h => (nomatch h), fun ⟨s, hs, _⟩ => (nomatch hs)⟩
    | ok s =>
      simp only [Except.ok.injEq, exists_eq_left']
      cases hsig : s.significant with
      | true => exact ⟨fun h => (nomatch h), fun h => (nomatch h)⟩
      | false => exact ⟨fun _ => rfl, fun _ => rfl⟩

/-- A frontier row a recommendation may name. -/
structure IsRecommended (rows : List FrontierRow) (best : FrontierRow × ℕ) (c : Placed) : Prop where
  onFrontier : c ∈ front rows
  isPlaced : IsPlaced rows c
  isBestOf : IsBestOf rows best
  qualifies : Qualifies best rows.length c
  cheapest : ∀ c' ∈ front rows, c'.costPerCase < c.costPerCase → ¬ Qualifies best rows.length c'

theorem analyze_label {input : FrontierInput} {l : String}
    (h : (analyze input).2.label = some l) :
    2 ≤ input.rows.length ∧ input.isPartial = false ∧
      ∃ best c, IsRecommended input.rows best c ∧ c.row.label = l := by
  unfold analyze at h
  simp only at h
  cases hbest : bestOf input.rows with
  | none =>
    rw [hbest] at h
    exact nomatch h
  | some best =>
    rw [hbest] at h
    simp only at h
    by_cases hsingle : input.rows.length < 2
    · rw [if_pos hsingle] at h
      exact nomatch h
    by_cases hincomplete : input.isPartial = true
    · rw [if_neg hsingle, if_pos hincomplete] at h
      exact nomatch h
    · rw [if_neg hsingle, if_neg hincomplete] at h
      refine ⟨not_lt.1 hsingle, Bool.eq_false_of_not_eq_true hincomplete, best, ?_⟩
      cases hwalk : ((front input.rows).map fun c =>
          (c, verdictOf best input.rows.length c)).find? fun c => c.2.endsWalk with
      | none =>
        rw [hwalk] at h
        exact nomatch h
      | some found =>
        rcases found with ⟨c, v⟩
        rw [hwalk] at h
        -- the walk is over the sorted frontier
        rw [List.find?_map, Option.map_eq_some_iff] at hwalk
        rcases hwalk with ⟨c', hfind, heq⟩
        rcases Prod.mk.inj heq with ⟨rfl, -⟩
        rcases Frontier.find?_sorted (front_sorted input.rows) hfind with ⟨hmem, hends, hfirst⟩
        refine ⟨c', ⟨hmem, isPlaced_of_mem (mem_front.1 hmem).1, bestOf_spec hbest,
          endsWalk_iff.1 hends, fun d hd hlt hqualifies => ?_⟩, Option.some.inj h⟩
        rcases hfirst d hd (endsWalk_iff.2 hqualifies) with heq' | hle
        · exact absurd (heq' ▸ hlt) (lt_irrefl _)
        · exact absurd hle (not_le.2 hlt)

/-- What the frontier and the recommendation keep to. -/
structure FrontierSound (input : FrontierInput) : Prop where
  acyclic : ∀ p, ¬ Relation.TransGen (fun a b => dominates a b = true) p p
  reported : (analyze input).1.nonDominated = (front input.rows).map fun p => p.row.label
  nonempty : placed input.rows ≠ [] → front input.rows ≠ []
  offFrontier : ∀ p ∈ placed input.rows, p ∉ front input.rows →
    ∃ q ∈ placed input.rows, dominates q p = true
  recommended : ∀ l, (analyze input).2.label = some l →
    ∃ best c, IsRecommended input.rows best c ∧ c.row.label = l
  notPartial : input.isPartial = true → (analyze input).2.label = none
  notSingle : input.rows.length < 2 → (analyze input).2.label = none

theorem analyze_nonDominated (input : FrontierInput) :
    (analyze input).1.nonDominated = (front input.rows).map fun p => p.row.label := by
  unfold analyze
  simp only
  cases bestOf input.rows with
  | none => rfl
  | some best =>
    simp only
    by_cases hsingle : input.rows.length < 2
    · rw [if_pos hsingle]
    by_cases hincomplete : input.isPartial = true
    · rw [if_neg hsingle, if_pos hincomplete]
    · rw [if_neg hsingle, if_neg hincomplete]
      cases ((front input.rows).map fun c =>
          (c, verdictOf best input.rows.length c)).find? fun c => c.2.endsWalk with
      | none => rfl
      | some found => rfl

/-- **The frontier is never empty, and what is recommended is on it.** -/
theorem analyze_sound (input : FrontierInput) : FrontierSound input := by
  refine ⟨dominates_ranked.acyclic, analyze_nonDominated input, ?_, ?_, ?_, ?_, ?_⟩
  · intro hne hnil
    have hperm : (front input.rows).Perm (Frontier.undominated dominates (placed input.rows)) :=
      List.mergeSort_perm _ walkOrder
    rw [hnil] at hperm
    exact dominates_ranked.undominated_ne_nil hne hperm.symm.eq_nil
  · intro p hp hoff
    refine Frontier.exists_beats hp fun hmem => hoff ?_
    exact List.mem_mergeSort.2 hmem
  · intro l hl
    exact (analyze_label hl).2.2
  · intro hincomplete
    cases hl : (analyze input).2.label with
    | none => rfl
    | some l =>
      have := (analyze_label hl).2.1
      rw [hincomplete] at this
      exact nomatch this
  · intro hsingle
    cases hl : (analyze input).2.label with
    | none => rfl
    | some l => exact absurd (analyze_label hl).1 (not_le.2 hsingle)

end LightTrack.Stats
