import LightTrack.Core.Clock
import LightTrack.Lib.Group
import LightTrack.Lib.Kappa
import LightTrack.Lib.Moments
import Mathlib.Analysis.Real.Sqrt

/-! # Judge and human

How far a judge's scores agree with a human's, in exact arithmetic: the errors, the correlation and
Cohen's kappa of the pass and fail labels.

* `agreement_eq` : what is computed, as long as no counter overflows,
* `cohenKappa_eq` : the code's special case near certainty is the exact one,
* `agreement_lawful` : the bounds and symmetries of the figures,
* `agreement_wraps` : a set whose counters wrap.
-/

namespace LightTrack

/-- `Agreement` -/
structure Agreement where
  n : ℕ
  pearson : ℝ
  mae : ℚ
  rmse : ℝ
  bias : ℚ
  cohenKappa : ℚ
  agreementRate : ℚ
  humanPassRate : ℚ
  judgePassRate : ℚ
  threshold : ℚ
  kappaBar : ℚ
  trusted : Bool

/-- The pass and fail labels of a human and a judge score. -/
def passLabels (threshold : ℚ) (p : ℚ × ℚ) : Bool × Bool :=
  (decide (threshold ≤ p.1), decide (threshold ≤ p.2))

/-- The first loop's sums and counters. -/
structure PairSums where
  absSum : ℚ
  sqSum : ℚ
  hsum : ℚ
  jsum : ℚ
  hp : UInt32
  jp : UInt32
  bothPass : UInt32
  bothFail : UInt32

namespace PairSums

def zero : PairSums := ⟨0, 0, 0, 0, 0, 0, 0, 0⟩

/-- One round of the loop. -/
def add (checks : Bool) (threshold : ℚ) (s : PairSums) (p : ℚ × ℚ) : Except Overflow PairSums := do
  let x := passLabels threshold p
  let hp ← addU32 checks s.hp x.1.toUInt32
  let jp ← addU32 checks s.jp x.2.toUInt32
  let bothPass ← addU32 checks s.bothPass (x.1 && x.2).toUInt32
  let bothFail ← addU32 checks s.bothFail (!x.1 && !x.2).toUInt32
  pure
    { absSum := s.absSum + |p.2 - p.1|
      sqSum := s.sqSum + (p.2 - p.1) ^ 2
      hsum := s.hsum + p.1
      jsum := s.jsum + p.2
      hp := hp
      jp := jp
      bothPass := bothPass
      bothFail := bothFail }

end PairSums

/-- Pearson correlation, 0 without variance. -/
noncomputable def pearsonOf (pairs : List (ℚ × ℚ)) (hmean jmean : ℚ) : ℝ :=
  let cov : ℚ := (pairs.map fun p => (p.1 - hmean) * (p.2 - jmean)).sum
  let vh : ℚ := (pairs.map fun p => (p.1 - hmean) ^ 2).sum
  let vj : ℚ := (pairs.map fun p => (p.2 - jmean) ^ 2).sum
  if 0 < vh ∧ 0 < vj then cov / (√vh * √vj) else 0

/-- Cohen's kappa of the observed and the expected agreement. -/
def cohenKappa (po pe : ℚ) : ℚ :=
  if |1 - pe| < 1 / 10 ^ 12 then
    -- one class: perfect where they fully agree
    if |po - 1| < 1 / 10 ^ 12 then 1 else 0
  else (po - pe) / (1 - pe)

/-- The figures, once the pairs are summed and the agreed labels counted. -/
noncomputable def agreementOf (pairs : List (ℚ × ℚ)) (threshold kappaBar : ℚ) (s : PairSums)
    (agreed : UInt32) : Agreement :=
  let nf : ℚ := pairs.length
  let hmean := s.hsum / nf
  let jmean := s.jsum / nf
  let po := agreed.toNat / nf
  let hpr := s.hp.toNat / nf
  let jpr := s.jp.toNat / nf
  let pe := hpr * jpr + (1 - hpr) * (1 - jpr)
  let kappa := cohenKappa po pe
  { n := pairs.length
    pearson := pearsonOf pairs hmean jmean
    mae := s.absSum / nf
    rmse := √((s.sqSum / nf : ℚ) : ℝ)
    bias := jmean - hmean
    cohenKappa := kappa
    agreementRate := po
    humanPassRate := hpr
    judgePassRate := jpr
    threshold := threshold
    kappaBar := kappaBar
    trusted := decide (kappaBar ≤ kappa) }

/-- `agreement` -/
noncomputable def agreement (checks : Bool) (pairs : List (ℚ × ℚ)) (threshold kappaBar : ℚ) :
    Except Overflow Agreement :=
  if pairs.length = 0 then
    .ok ⟨0, 0, 0, 0, 0, 0, 0, 0, 0, threshold, kappaBar, false⟩
  else do
    let s ← pairs.foldlM (PairSums.add checks threshold) .zero
    let agreed ← addU32 checks s.bothPass s.bothFail
    pure (agreementOf pairs threshold kappaBar s agreed)

/-- The labels of all pairs. -/
def labels (threshold : ℚ) (pairs : List (ℚ × ℚ)) : List (Bool × Bool) :=
  pairs.map (passLabels threshold)

/-- The passes of either rater and the labels they agree on can be counted. -/
structure CountersFit (threshold : ℚ) (pairs : List (ℚ × ℚ)) : Prop where
  human : (labels threshold pairs).countP Prod.fst < 2 ^ 32
  judge : (labels threshold pairs).countP Prod.snd < 2 ^ 32
  agreed : ((labels threshold pairs).countP fun x => x.1 == x.2) < 2 ^ 32

/-- What is promised of the figures of a set of pairs. -/
structure LawfulAgreement (checks : Bool) (pairs : List (ℚ × ℚ)) (threshold kappaBar : ℚ)
    (a : Agreement) : Prop where
  answered : agreement checks pairs threshold kappaBar = .ok a
  kappa : -1 ≤ a.cohenKappa ∧ a.cohenKappa ≤ 1
  certain : a.cohenKappa = 1 ↔ ∀ p ∈ pairs, threshold ≤ p.1 ↔ threshold ≤ p.2
  errors : (a.mae : ℝ) ≤ a.rmse ∧ |a.bias| ≤ a.mae
  pearson : -1 ≤ a.pearson ∧ a.pearson ≤ 1
  trusted : a.trusted = true ↔ kappaBar ≤ a.cohenKappa
  swapped : ∃ b, agreement checks (pairs.map Prod.swap) threshold kappaBar = .ok b ∧
    b.cohenKappa = a.cohenKappa ∧ b.pearson = a.pearson ∧ b.bias = -a.bias
  permuted : ∀ pairs', pairs.Perm pairs' →
    ∃ b, agreement checks pairs' threshold kappaBar = .ok b ∧ b.cohenKappa = a.cohenKappa
  relabelled : ∀ pairs', labels threshold pairs' = labels threshold pairs →
    ∃ b, agreement checks pairs' threshold kappaBar = .ok b ∧ b.cohenKappa = a.cohenKappa

@[simp] theorem labels_cons (threshold : ℚ) (p : ℚ × ℚ) (pairs : List (ℚ × ℚ)) :
    labels threshold (p :: pairs) = passLabels threshold p :: labels threshold pairs := rfl

/-! ## Counters -/

section Counters

variable {checks : Bool} {threshold : ℚ} {pairs : List (ℚ × ℚ)} {s : PairSums}

/-- One round of the loop, its counters wrapped. -/
def PairSums.added (threshold : ℚ) (s : PairSums) (p : ℚ × ℚ) : PairSums :=
  let x := passLabels threshold p
  { absSum := s.absSum + |p.2 - p.1|
    sqSum := s.sqSum + (p.2 - p.1) ^ 2
    hsum := s.hsum + p.1
    jsum := s.jsum + p.2
    hp := s.hp + x.1.toUInt32
    jp := s.jp + x.2.toUInt32
    bothPass := s.bothPass + (x.1 && x.2).toUInt32
    bothFail := s.bothFail + (!x.1 && !x.2).toUInt32 }

/-- The labels still to come can be counted. -/
structure PairSums.Room (s : PairSums) (ls : List (Bool × Bool)) : Prop where
  hp : s.hp.toNat + ls.countP Prod.fst < 2 ^ 32
  jp : s.jp.toNat + ls.countP Prod.snd < 2 ^ 32
  bothPass : s.bothPass.toNat + (ls.countP fun x => x.1 && x.2) < 2 ^ 32
  bothFail : s.bothFail.toNat + (ls.countP fun x => !x.1 && !x.2) < 2 ^ 32

theorem toNat_toUInt32 (b : Bool) : b.toUInt32.toNat = if b then 1 else 0 := by
  cases b <;> rfl

section Counter

variable {c : UInt32} {q : Bool × Bool → Bool} {x : Bool × Bool} {ls : List (Bool × Bool)}

/-- A counter with room for the labels has it for the first of them. -/
theorem room_first (h : c.toNat + (x :: ls).countP q < 2 ^ 32) :
    c.toNat + (q x).toUInt32.toNat < 2 ^ 32 := by
  rw [List.countP_cons] at h
  rw [toNat_toUInt32]
  omega

/-- And then for the others. -/
theorem room_rest (h : c.toNat + (x :: ls).countP q < 2 ^ 32) :
    (c + (q x).toUInt32).toNat + ls.countP q < 2 ^ 32 := by
  have hfirst := room_first h
  rw [List.countP_cons] at h
  rw [UInt32.toNat_add, Nat.mod_eq_of_lt hfirst, toNat_toUInt32]
  omega

end Counter

theorem add_of_room {p : ℚ × ℚ} {ls : List (Bool × Bool)}
    (h : checks = true → s.Room (passLabels threshold p :: ls)) :
    s.add checks threshold p = .ok (s.added threshold p) := by
  unfold PairSums.add
  dsimp only
  rw [addU32_of_fits fun hc => room_first (h hc).hp, addU32_of_fits fun hc => room_first (h hc).jp,
    addU32_of_fits fun hc => room_first (h hc).bothPass (q := fun x => x.1 && x.2),
    addU32_of_fits fun hc => room_first (h hc).bothFail (q := fun x => !x.1 && !x.2)]
  rfl

/-- **The loop counts and sums**, as long as no checked counter overflows. -/
theorem foldlM_add (h : checks = true → s.Room (labels threshold pairs)) :
    pairs.foldlM (PairSums.add checks threshold) s =
      .ok (pairs.foldl (PairSums.added threshold) s) := by
  induction pairs generalizing s with
  | nil => rfl
  | cons p pairs ih =>
    rw [List.foldlM_cons, add_of_room h]
    refine ih ?_
    intro hc
    exact ⟨room_rest (h hc).hp, room_rest (h hc).jp,
      room_rest (h hc).bothPass (q := fun x => x.1 && x.2),
      room_rest (h hc).bothFail (q := fun x => !x.1 && !x.2)⟩

/-- What a counter holds after the loop. -/
theorem counter_foldl {f : PairSums → UInt32} {q : Bool × Bool → Bool}
    (h : ∀ s p, f (s.added threshold p) = f s + (q (passLabels threshold p)).toUInt32)
    (pairs : List (ℚ × ℚ)) (s : PairSums) :
    f (pairs.foldl (PairSums.added threshold) s) =
      f s + UInt32.ofNat ((labels threshold pairs).countP q) := by
  induction pairs generalizing s with
  | nil => exact (UInt32.add_zero _).symm
  | cons p pairs ih =>
    rw [List.foldl_cons, ih, h, labels_cons, List.countP_cons, UInt32.ofNat_add,
      UInt32.add_assoc, UInt32.add_comm (UInt32.ofNat _)]
    congr 2
    cases q (passLabels threshold p) <;> rfl

/-- The labels agreed on are those both pass and those both fail. -/
theorem countP_agreed (ls : List (Bool × Bool)) : (ls.countP fun x => x.1 == x.2) =
    (ls.countP fun x => x.1 && x.2) + ls.countP fun x => !x.1 && !x.2 := by
  induction ls with
  | nil => rfl
  | cons x ls ih =>
    rcases x with ⟨a, b⟩
    simp only [List.countP_cons, ih]
    cases a <;> cases b <;> simp <;> omega

/-- The sums and counters of the pairs. -/
def pairSums (threshold : ℚ) (pairs : List (ℚ × ℚ)) : PairSums :=
  pairs.foldl (PairSums.added threshold) .zero

theorem pairSums_agreed (threshold : ℚ) (pairs : List (ℚ × ℚ)) :
    (pairSums threshold pairs).bothPass + (pairSums threshold pairs).bothFail =
      UInt32.ofNat ((labels threshold pairs).countP fun x => x.1 == x.2) := by
  unfold pairSums
  rw [counter_foldl (f := PairSums.bothPass) (q := fun x => x.1 && x.2) fun _ _ => rfl,
    counter_foldl (f := PairSums.bothFail) (q := fun x => !x.1 && !x.2) fun _ _ => rfl,
    countP_agreed, UInt32.ofNat_add]
  simp [PairSums.zero]

theorem room_of_fit (h : CountersFit threshold pairs) :
    PairSums.zero.Room (labels threshold pairs) := by
  have hagreed := h.agreed
  rw [countP_agreed] at hagreed
  refine ⟨?_, ?_, ?_, ?_⟩
  · exact (Nat.zero_add _).trans_lt h.human
  · exact (Nat.zero_add _).trans_lt h.judge
  · exact (Nat.zero_add _).trans_lt ((Nat.le_add_right _ _).trans_lt hagreed)
  · exact (Nat.zero_add _).trans_lt ((Nat.le_add_left _ _).trans_lt hagreed)

theorem agreement_eq {kappaBar : ℚ} (hne : pairs ≠ [])
    (h : checks = true → CountersFit threshold pairs) :
    agreement checks pairs threshold kappaBar =
      .ok (agreementOf pairs threshold kappaBar (pairSums threshold pairs)
        (UInt32.ofNat ((labels threshold pairs).countP fun x => x.1 == x.2))) := by
  have hlen : pairs.length ≠ 0 := fun hzero => hne (List.length_eq_zero_iff.1 hzero)
  have hsum : checks = true → (pairSums threshold pairs).bothPass.toNat +
      (pairSums threshold pairs).bothFail.toNat < 2 ^ 32 := by
    intro hc
    have hagreed := (h hc).agreed
    rw [countP_agreed] at hagreed
    unfold pairSums
    rw [counter_foldl (f := PairSums.bothPass) (q := fun x => x.1 && x.2) fun _ _ => rfl,
      counter_foldl (f := PairSums.bothFail) (q := fun x => !x.1 && !x.2) fun _ _ => rfl]
    simp only [PairSums.zero, UInt32.zero_add, UInt32.toNat_ofNat']
    omega
  unfold agreement
  rw [if_neg hlen, foldlM_add fun hc => room_of_fit (h hc)]
  change (addU32 checks (pairSums threshold pairs).bothPass (pairSums threshold pairs).bothFail >>=
    fun agreed => pure (agreementOf pairs threshold kappaBar (pairSums threshold pairs) agreed)) = _
  rw [addU32_of_fits hsum, pairSums_agreed]
  rfl

/-! ## Kappa -/

theorem length_labels : (labels threshold pairs).length = pairs.length := List.length_map _

/-- The counts that fit bound the number of pairs. -/
theorem length_lt_of_fit (h : CountersFit threshold pairs) : pairs.length < 10 ^ 12 := by
  have hcount := Kappa.count_fails (labels threshold pairs)
  rw [length_labels] at hcount
  have hhuman := h.human
  have hjudge := h.judge
  have hagreed := h.agreed
  omega

/-- Near certainty by chance is certainty. -/
theorem cohenKappa_eq {ls : List (Bool × Bool)} (hne : ls ≠ []) (hlen : ls.length < 10 ^ 12) :
    cohenKappa (Kappa.observed ls) (Kappa.chance ls) = Kappa.kappa ls := by
  unfold cohenKappa
  by_cases hcertain : Kappa.chance ls = 1
  · rw [hcertain, Kappa.observed_of_certain hne hcertain, Kappa.kappa_of_certain hcertain, sub_self,
      abs_zero, if_pos (by norm_num), if_pos (by norm_num)]
  · have hpos : (0 : ℚ) < ls.length := Nat.cast_pos.2 (List.length_pos_of_ne_nil hne)
    have hgap := Kappa.le_one_sub_chance hne hcertain
    have hfew : (1 : ℚ) / 10 ^ 12 ≤ 1 / ls.length := by
      apply one_div_le_one_div_of_le hpos
      exact_mod_cast hlen.le
    rw [Kappa.kappa_of_uncertain hcertain, abs_of_pos (Kappa.uncertain_pos hcertain),
      if_neg (not_lt.2 (hfew.trans hgap))]

/-- **The kappa of counts that fit is Cohen's.** -/
theorem agreementOf_kappa {kappaBar : ℚ} (h : CountersFit threshold pairs) (hne : pairs ≠ []) :
    (agreementOf pairs threshold kappaBar (pairSums threshold pairs)
      (UInt32.ofNat ((labels threshold pairs).countP fun x => x.1 == x.2))).cohenKappa =
        Kappa.kappa (labels threshold pairs) := by
  have hhp : (pairSums threshold pairs).hp.toNat = (labels threshold pairs).countP Prod.fst := by
    unfold pairSums
    rw [counter_foldl (f := PairSums.hp) (q := Prod.fst) fun _ _ => rfl]
    simp only [PairSums.zero, UInt32.zero_add, UInt32.toNat_ofNat']
    exact Nat.mod_eq_of_lt h.human
  have hjp : (pairSums threshold pairs).jp.toNat = (labels threshold pairs).countP Prod.snd := by
    unfold pairSums
    rw [counter_foldl (f := PairSums.jp) (q := Prod.snd) fun _ _ => rfl]
    simp only [PairSums.zero, UInt32.zero_add, UInt32.toNat_ofNat']
    exact Nat.mod_eq_of_lt h.judge
  have hagreed : (UInt32.ofNat ((labels threshold pairs).countP fun x => x.1 == x.2)).toNat =
      (labels threshold pairs).countP fun x => x.1 == x.2 := by
    rw [UInt32.toNat_ofNat']
    exact Nat.mod_eq_of_lt h.agreed
  have hlabels : labels threshold pairs ≠ [] := fun hnil => hne (List.map_eq_nil_iff.1 hnil)
  rw [← cohenKappa_eq hlabels (length_labels.trans_lt (length_lt_of_fit h))]
  unfold agreementOf Kappa.observed Kappa.chance Kappa.share
  dsimp only
  rw [hhp, hjp, hagreed, length_labels]

/-! ## Errors and correlation -/

section Figures

variable {kappaBar : ℚ} {agreed : UInt32}

/-- What the loop sums. -/
theorem pairSums_sum {f : PairSums → ℚ} {g : ℚ × ℚ → ℚ} (hzero : f .zero = 0)
    (hadded : ∀ s p, f (s.added threshold p) = f s + g p) (pairs : List (ℚ × ℚ)) :
    f (pairSums threshold pairs) = (pairs.map g).sum := by
  unfold pairSums
  rw [Group.foldl_additive hadded, hzero, zero_add]

theorem agreementOf_mae : (agreementOf pairs threshold kappaBar (pairSums threshold pairs)
    agreed).mae = Moments.mean (pairs.map fun p => |p.2 - p.1|) := by
  have hsum : (pairSums threshold pairs).absSum = (pairs.map fun p => |p.2 - p.1|).sum :=
    pairSums_sum (f := PairSums.absSum) rfl (fun _ _ => rfl) pairs
  unfold agreementOf Moments.mean
  dsimp only
  rw [hsum, List.length_map]

theorem agreementOf_rmse : (agreementOf pairs threshold kappaBar (pairSums threshold pairs)
    agreed).rmse = √((Moments.mean (pairs.map fun p => |p.2 - p.1| ^ 2) : ℚ) : ℝ) := by
  have hsum : (pairSums threshold pairs).sqSum = (pairs.map fun p => |p.2 - p.1| ^ 2).sum := by
    simp only [sq_abs]
    exact pairSums_sum (f := PairSums.sqSum) rfl (fun _ _ => rfl) pairs
  unfold agreementOf Moments.mean
  dsimp only
  rw [hsum, List.length_map]

theorem pairSums_hsum : (pairSums threshold pairs).hsum = (pairs.map Prod.fst).sum :=
  pairSums_sum (f := PairSums.hsum) rfl (fun _ _ => rfl) pairs

theorem pairSums_jsum : (pairSums threshold pairs).jsum = (pairs.map Prod.snd).sum :=
  pairSums_sum (f := PairSums.jsum) rfl (fun _ _ => rfl) pairs

theorem agreementOf_bias : (agreementOf pairs threshold kappaBar (pairSums threshold pairs)
    agreed).bias = Moments.mean (pairs.map Prod.snd) - Moments.mean (pairs.map Prod.fst) := by
  unfold agreementOf Moments.mean
  dsimp only
  rw [pairSums_hsum, pairSums_jsum, List.length_map, List.length_map]

theorem agreementOf_pearson : (agreementOf pairs threshold kappaBar (pairSums threshold pairs)
    agreed).pearson =
      pearsonOf pairs (Moments.mean (pairs.map Prod.fst)) (Moments.mean (pairs.map Prod.snd)) := by
  unfold agreementOf Moments.mean
  dsimp only
  rw [pairSums_hsum, pairSums_jsum, List.length_map, List.length_map]

/-- The bias is the mean of the differences. -/
theorem bias_eq (pairs : List (ℚ × ℚ)) :
    Moments.mean (pairs.map Prod.snd) - Moments.mean (pairs.map Prod.fst) =
      Moments.mean (pairs.map fun p => p.2 - p.1) := by
  have hsum : (pairs.map Prod.snd).sum - (pairs.map Prod.fst).sum =
      (pairs.map fun p => p.2 - p.1).sum := by
    induction pairs with
    | nil => exact sub_zero 0
    | cons p pairs ih =>
      rw [List.map_cons, List.map_cons, List.map_cons, List.sum_cons, List.sum_cons, List.sum_cons,
        ← ih]
      ring
  unfold Moments.mean
  rw [List.length_map, List.length_map, List.length_map, ← sub_div, hsum]

theorem abs_bias_le (pairs : List (ℚ × ℚ)) :
    |Moments.mean (pairs.map Prod.snd) - Moments.mean (pairs.map Prod.fst)| ≤
      Moments.mean (pairs.map fun p => |p.2 - p.1|) := by
  have hle := Moments.abs_mean_le (pairs.map fun p => p.2 - p.1)
  rw [List.map_map] at hle
  rw [bias_eq]
  exact hle

theorem mae_le_rmse (pairs : List (ℚ × ℚ)) :
    ((Moments.mean (pairs.map fun p => |p.2 - p.1|) : ℚ) : ℝ) ≤
      √((Moments.mean (pairs.map fun p => |p.2 - p.1| ^ 2) : ℚ) : ℝ) := by
  have hle := Moments.sq_mean_le (pairs.map fun p => |p.2 - p.1|)
  rw [List.map_map] at hle
  apply Real.le_sqrt_of_sq_le
  exact_mod_cast hle

/-- **The correlation lies between minus one and one.** -/
theorem pearsonOf_bounds (pairs : List (ℚ × ℚ)) (hmean jmean : ℚ) :
    -1 ≤ pearsonOf pairs hmean jmean ∧ pearsonOf pairs hmean jmean ≤ 1 := by
  unfold pearsonOf
  dsimp only
  split_ifs with hpos
  · have hcs := Moments.sum_mul_sq_le pairs (fun p => p.1 - hmean) fun p => p.2 - jmean
    have hroots : 0 < √(((pairs.map fun p => (p.1 - hmean) ^ 2).sum : ℚ) : ℝ) *
        √(((pairs.map fun p => (p.2 - jmean) ^ 2).sum : ℚ) : ℝ) :=
      mul_pos (Real.sqrt_pos.2 (Rat.cast_pos.2 hpos.1)) (Real.sqrt_pos.2 (Rat.cast_pos.2 hpos.2))
    have habs : |(((pairs.map fun p => (p.1 - hmean) * (p.2 - jmean)).sum : ℚ) : ℝ)| ≤
        √(((pairs.map fun p => (p.1 - hmean) ^ 2).sum : ℚ) : ℝ) *
          √(((pairs.map fun p => (p.2 - jmean) ^ 2).sum : ℚ) : ℝ) := by
      rw [← Real.sqrt_mul (Rat.cast_nonneg.2 hpos.1.le)]
      apply Real.abs_le_sqrt
      exact_mod_cast hcs
    rw [← abs_le, abs_div, abs_of_pos hroots, div_le_one hroots]
    exact habs
  · exact ⟨by norm_num, by norm_num⟩

theorem pearsonOf_swap (pairs : List (ℚ × ℚ)) (hmean jmean : ℚ) :
    pearsonOf (pairs.map Prod.swap) jmean hmean = pearsonOf pairs hmean jmean := by
  have hcov : ((pairs.map Prod.swap).map fun p => (p.1 - jmean) * (p.2 - hmean)) =
      pairs.map fun p => (p.1 - hmean) * (p.2 - jmean) := by
    rw [List.map_map]
    exact List.map_congr_left fun p _ => mul_comm _ _
  unfold pearsonOf
  dsimp only
  rw [hcov, List.map_map, List.map_map, mul_comm]
  exact if_congr and_comm rfl rfl

end Figures

/-! ## The laws -/

section Laws

variable {kappaBar : ℚ}

theorem labels_swap (threshold : ℚ) (pairs : List (ℚ × ℚ)) :
    labels threshold (pairs.map Prod.swap) = (labels threshold pairs).map Prod.swap := by
  unfold labels
  rw [List.map_map, List.map_map]
  rfl

theorem CountersFit.swap (h : CountersFit threshold pairs) :
    CountersFit threshold (pairs.map Prod.swap) := by
  have hagreed := h.agreed
  constructor
  · rw [labels_swap, List.countP_map]
    exact h.judge
  · rw [labels_swap, List.countP_map]
    exact h.human
  · rw [labels_swap, List.countP_map]
    refine lt_of_eq_of_lt (congrArg (List.countP · _) ?_) hagreed
    exact funext fun x => Bool.beq_comm

/-- Pairs whose labels are others' in another order have their kappa. -/
theorem kappa_of_labels_perm {pairs' : List (ℚ × ℚ)} (hne : pairs ≠ [])
    (hfit : CountersFit threshold pairs)
    (h : (labels threshold pairs).Perm (labels threshold pairs')) :
    ∃ b, agreement checks pairs' threshold kappaBar = .ok b ∧
      b.cohenKappa = Kappa.kappa (labels threshold pairs) := by
  have hne' : pairs' ≠ [] := by
    rintro rfl
    exact hne (List.map_eq_nil_iff.1 h.eq_nil)
  have hfit' : CountersFit threshold pairs' :=
    ⟨h.countP_eq _ ▸ hfit.human, h.countP_eq _ ▸ hfit.judge, h.countP_eq _ ▸ hfit.agreed⟩
  refine ⟨_, agreement_eq hne' fun _ => hfit', ?_⟩
  rw [agreementOf_kappa hfit' hne', Kappa.kappa_perm h]

/-- **Agreement is lawful**: a set of pairs whose passes and agreed labels can be counted has the
figures it should have, and the empty set is never trusted. -/
theorem agreement_lawful (hne : pairs ≠ []) (hfit : CountersFit threshold pairs) :
    (∃ a, LawfulAgreement checks pairs threshold kappaBar a) ∧
      ∃ a, agreement checks [] threshold kappaBar = .ok a ∧ a.trusted = false := by
  have hlabels : labels threshold pairs ≠ [] := fun hnil => hne (List.map_eq_nil_iff.1 hnil)
  have hswap : pairs.map Prod.swap ≠ [] := fun hnil => hne (List.map_eq_nil_iff.1 hnil)
  refine ⟨⟨_, agreement_eq hne fun _ => hfit, ?_, ?_, ?_, ?_, ?_, ?_, ?_, ?_⟩, _, rfl, rfl⟩
  · rw [agreementOf_kappa hfit hne]
    exact ⟨Kappa.neg_one_le_kappa hlabels, Kappa.kappa_le_one _⟩
  · rw [agreementOf_kappa hfit hne, Kappa.kappa_eq_one_iff hlabels, labels, List.forall_mem_map]
    exact forall₂_congr fun p _ => decide_eq_decide
  · rw [agreementOf_mae, agreementOf_rmse, agreementOf_bias]
    exact ⟨mae_le_rmse pairs, abs_bias_le pairs⟩
  · rw [agreementOf_pearson]
    exact pearsonOf_bounds _ _ _
  · exact decide_eq_true_iff
  · refine ⟨_, agreement_eq hswap fun _ => hfit.swap, ?_, ?_, ?_⟩
    · rw [agreementOf_kappa hfit.swap hswap, agreementOf_kappa hfit hne, labels_swap,
        Kappa.kappa_swap]
    · rw [agreementOf_pearson, agreementOf_pearson, List.map_map, List.map_map]
      exact pearsonOf_swap pairs _ _
    · rw [agreementOf_bias, agreementOf_bias, List.map_map, List.map_map, neg_sub]
      rfl
  · intro pairs' h
    rw [agreementOf_kappa hfit hne]
    exact kappa_of_labels_perm hne hfit (h.map _)
  · intro pairs' h
    rw [agreementOf_kappa hfit hne]
    exact kappa_of_labels_perm hne hfit (h ▸ List.Perm.refl _)

theorem agreement_lawful_sample :
    (∃ a, LawfulAgreement true [(9 / 10, 8 / 10), (2 / 10, 9 / 10), (1 / 10, 3 / 10)] (7 / 10)
      (6 / 10) a) ∧
      ∃ a, agreement true [] (7 / 10) (6 / 10) = .ok a ∧ a.trusted = false :=
  agreement_lawful (List.cons_ne_nil _ _)
    ⟨by decide +kernel, by decide +kernel, by decide +kernel⟩

/-- So many pairs that pass both that no counter shows one. -/
theorem agreement_of_wrapped {n : ℕ} (hn : n ≠ 0) (hwrap : n % 2 ^ 32 = 0) :
    ∃ a, agreement false (List.replicate n (1, 1)) (1 / 2) kappaBar = .ok a ∧ a.cohenKappa = 0 := by
  have hne : List.replicate n ((1 : ℚ), (1 : ℚ)) ≠ [] := by
    rw [Ne, List.replicate_eq_nil_iff]
    exact hn
  have hlabels : labels (1 / 2) (List.replicate n (1, 1)) = List.replicate n (true, true) := by
    unfold labels
    rw [List.map_replicate]
    have hpass : passLabels (1 / 2) (1, 1) = (true, true) := by decide +kernel
    rw [hpass]
  have hcount : ∀ q : Bool × Bool → Bool, q (true, true) = true →
      UInt32.ofNat ((labels (1 / 2) (List.replicate n (1, 1))).countP q) = 0 := by
    intro q hq
    rw [hlabels, List.countP_replicate, if_pos hq, ← UInt32.toNat_inj, UInt32.toNat_ofNat']
    exact hwrap
  refine ⟨_, agreement_eq hne fun hfalse => absurd hfalse Bool.false_ne_true, ?_⟩
  have hhp : (pairSums (1 / 2) (List.replicate n (1, 1))).hp = 0 := by
    unfold pairSums
    rw [counter_foldl (f := PairSums.hp) (q := Prod.fst) fun _ _ => rfl, hcount _ rfl]
    rfl
  have hjp : (pairSums (1 / 2) (List.replicate n (1, 1))).jp = 0 := by
    unfold pairSums
    rw [counter_foldl (f := PairSums.jp) (q := Prod.snd) fun _ _ => rfl, hcount _ rfl]
    rfl
  unfold agreementOf
  dsimp only
  rw [hcount _ rfl, hhp, hjp, UInt32.toNat_zero, Nat.cast_zero, zero_div, zero_mul, sub_zero, mul_one,
    zero_add]
  decide +kernel

/-- Every pair agrees, and kappa is zero. -/
theorem agreement_wraps :
    ¬ ∃ a, LawfulAgreement false (List.replicate (2 ^ 32) (1, 1)) (1 / 2) (6 / 10) a := by
  rintro ⟨a, h⟩
  obtain ⟨b, hb, hzero⟩ : ∃ b, agreement false (List.replicate (2 ^ 32) (1, 1)) (1 / 2) (6 / 10) =
      .ok b ∧ b.cohenKappa = 0 := agreement_of_wrapped (by decide) (by decide)
  have hab : a = b := Except.ok.inj (h.answered.symm.trans hb)
  have hone : a.cohenKappa = 1 := by
    refine h.certain.2 ?_
    intro p hp
    rw [List.eq_of_mem_replicate hp]
  rw [hab, hzero] at hone
  exact zero_ne_one hone

end Laws

end Counters

end LightTrack
