import LightTrack.Collective.Fold
import LightTrack.Lib.Moments
import Mathlib.Analysis.Real.Sqrt

/-! # Folding equals pooling

What a folded entry reports is what its entries' populations, put together, would report of
themselves.

* `Describes` : the population an entry reports on,
* `exists_describes` : there is one for every report of two cases or more,
* `finish_quality`, `finish_variance` : the mean and the variance of the pooled population,
* `finish_tags_perm` : the tags, whichever entry came first,
* `foldEntries_pools` : all of this of every list of entries whose stamps are of the vocabulary.
-/

namespace LightTrack

/-- A population the figures of an entry are those of: so many cases, with this mean and, where one
is reported, this variance. -/
structure Describes (e : CollectiveEntry) (xs : List ℝ) : Prop where
  cases : xs.length = e.nCases.toNat
  mean : xs ≠ [] → Moments.mean xs = e.quality
  variance : xs ≠ [] → ∀ v ∈ e.qualityVariance, Moments.variance xs = v

/-- There is such a population for every mean and variance, of two cases or more. -/
theorem exists_describes {e : CollectiveEntry} (hcases : 2 ≤ e.nCases.toNat)
    (hvariance : ∀ v ∈ e.qualityVariance, 0 ≤ v) : ∃ xs, Describes e xs := by
  rcases Nat.exists_eq_add_of_le hcases with ⟨k, hk⟩
  -- all cases at the mean, but for two at either side
  let m : ℝ := e.quality
  let v : ℝ := (e.qualityVariance.getD 0 : ℚ)
  let s : ℝ := Real.sqrt ((k + 2 : ℕ) * v / 2)
  have hv : 0 ≤ v := by
    refine Rat.cast_nonneg.2 ?_
    cases hq : e.qualityVariance with
    | none => exact le_rfl
    | some v => exact hvariance v hq
  have hne : ((k + 2 : ℕ) : ℝ) ≠ 0 := Nat.cast_ne_zero.2 (Nat.succ_ne_zero _)
  have hs : s ^ 2 = (k + 2 : ℕ) * v / 2 := Real.sq_sqrt (by positivity)
  have hmean : Moments.mean ((m + s) :: (m - s) :: List.replicate k m) = m := by
    have hsum : ((m + s) :: (m - s) :: List.replicate k m).sum = (k + 2 : ℕ) * m := by
      rw [List.sum_cons, List.sum_cons, List.sum_replicate, nsmul_eq_mul]
      push_cast
      ring
    have hlength : ((m + s) :: (m - s) :: List.replicate k m).length = k + 2 := by
      rw [List.length_cons, List.length_cons, List.length_replicate]
    rw [Moments.mean, hsum, hlength, mul_div_cancel_left₀ _ hne]
  refine ⟨(m + s) :: (m - s) :: List.replicate k m, ?_, fun _ => hmean, ?_⟩
  · rw [List.length_cons, List.length_cons, List.length_replicate, hk, Nat.add_comm 2]
  · intro _ w hw
    have hvw : v = w := by
      change ((e.qualityVariance.getD 0 : ℚ) : ℝ) = w
      rw [hw, Option.getD_some]
    rw [Moments.variance, hmean, List.map_cons, List.map_cons, List.map_replicate, List.sum_cons,
      List.sum_cons, List.sum_replicate, add_sub_cancel_left, sub_sub_cancel_left, neg_sq, hs, sub_self,
      zero_pow two_ne_zero, smul_zero, add_zero, add_halves, List.length_cons, List.length_cons,
      List.length_replicate, mul_div_cancel_left₀ _ hne, hvw]

/-- The tags of an entry. -/
structure EntryTags where
  judgeProvider : Option String
  rubricFingerprint : Option String
  determinism : Option String
  frozenDataset : Coverage
  significanceTested : Coverage
  deriving DecidableEq

/-- The tags of an entry. -/
def CollectiveEntry.tags (e : CollectiveEntry) : EntryTags :=
  { judgeProvider := e.judgeProvider
    rubricFingerprint := e.rubricFingerprint
    determinism := e.determinism
    frozenDataset := e.frozenDataset
    significanceTested := e.significanceTested }

/-- A figure's mean over the entries, each weighted by its cases. -/
def caseMean (f : CollectiveEntry → ℚ) (es : List CollectiveEntry) : ℚ :=
  Share.mean (es.map fun e => (e.cases, f e))

/-- What folding promises of the entries of one contributor. -/
structure FoldsAsPool (entries : List CollectiveEntry) : Prop where
  keys : (foldEntries entries).1.map CollectiveEntry.key =
    (entries.map CollectiveEntry.key).eraseDups
  distinct : ((foldEntries entries).1.map CollectiveEntry.key).Nodup
  absorbed : (foldEntries entries).2 = entries.length - (foldEntries entries).1.length
  unique : ∀ f ∈ (foldEntries entries).1, ∀ e, bucket entries f.key = [e] → f = e
  cases : ∀ f ∈ (foldEntries entries).1, totalCases (bucket entries f.key) < 2 ^ 32 →
    f.nCases.toNat = totalCases (bucket entries f.key)
  means : ∀ f ∈ (foldEntries entries).1, 2 ≤ (bucket entries f.key).length →
    f.quality = caseMean CollectiveEntry.quality (bucket entries f.key) ∧
    f.passRate = caseMean CollectiveEntry.passRate (bucket entries f.key)
  variance : ∀ f ∈ (foldEntries entries).1, 2 ≤ (bucket entries f.key).length →
    (∀ e ∈ bucket entries f.key, e.qualityVariance.isSome) →
    ∃ v, f.qualityVariance = some v ∧ ∀ parts, List.Forall₂ Describes (bucket entries f.key) parts →
      v = Moments.variance parts.flatten
  partialVariance : ∀ f ∈ (foldEntries entries).1, 2 ≤ (bucket entries f.key).length →
    (∃ e ∈ bucket entries f.key, e.qualityVariance = none) → f.qualityVariance = none
  order : ∀ entries', entries.Perm entries' → ∀ f ∈ (foldEntries entries).1,
    ∃ f' ∈ (foldEntries entries').1, f'.key = f.key ∧ f'.tags = f.tags

section Group

variable {first : CollectiveEntry} {rest : List CollectiveEntry}

/-! ## Means -/

theorem sum_cases (es : List CollectiveEntry) :
    (es.map CollectiveEntry.cases).sum = totalCases es := by
  unfold totalCases
  rw [Nat.cast_list_sum, List.map_map]
  rfl

/-- The floor under the weight of a group makes no difference: no cases weigh nothing. -/
theorem div_floor (es : List CollectiveEntry) (g : CollectiveEntry → ℚ) :
    (es.map fun e => g e * e.cases).sum / max (es.map CollectiveEntry.cases).sum 1 =
      (es.map fun e => g e * e.cases).sum / (es.map CollectiveEntry.cases).sum := by
  rcases Nat.eq_zero_or_pos (totalCases es) with hzero | hpos
  · have hnone : (es.map fun e => g e * e.cases).sum = 0 := by
      apply List.sum_eq_zero
      intro x hx
      rcases List.mem_map.1 hx with ⟨e, he, rfl⟩
      have hcases : e.nCases.toNat = 0 :=
        List.sum_eq_zero_iff.1 hzero _ (List.mem_map_of_mem he)
      unfold CollectiveEntry.cases
      rw [hcases, Nat.cast_zero, mul_zero]
    rw [hnone, zero_div, zero_div]
  · rw [sum_cases, max_eq_left (Nat.one_le_cast.2 hpos)]

theorem groupOf_w : (groupOf first rest).w = ((first :: rest).map CollectiveEntry.cases).sum :=
  groupOf_sum (fun _ => rfl) fun _ _ => rfl

theorem caseMean_eq (f : CollectiveEntry → ℚ) (es : List CollectiveEntry) : caseMean f es =
    (es.map fun e => f e * e.cases).sum / (es.map CollectiveEntry.cases).sum := by
  unfold caseMean Share.mean
  rw [List.map_map, List.map_map]
  rfl

/-- A figure that a group of several publishes is the case-weighted mean of its entries'. -/
theorem pooled_mean {f : CollectiveEntry → ℚ} {s : FoldAcc → ℚ}
    (hnew : ∀ e, s (.new e) = f e * e.cases) (hpush : ∀ g e, s (g.push e) = s g + f e * e.cases) :
    s (groupOf first rest) / max (groupOf first rest).w 1 = caseMean f (first :: rest) := by
  rw [groupOf_w, groupOf_sum hnew hpush, div_floor, caseMean_eq]

theorem finish_of_several (h : 2 ≤ (first :: rest).length) :
    (groupOf first rest).finish = (groupOf first rest).pooled := by
  have hn : (groupOf first rest).n ≠ 1 := by
    rw [groupOf_n]
    rw [List.length_cons] at h
    omega
  exact if_neg hn

theorem finish_quality (h : 2 ≤ (first :: rest).length) :
    (groupOf first rest).finish.quality = caseMean CollectiveEntry.quality (first :: rest) := by
  rw [finish_of_several h]
  exact pooled_mean (s := FoldAcc.qSum) (fun _ => rfl) fun _ _ => rfl

theorem finish_passRate (h : 2 ≤ (first :: rest).length) :
    (groupOf first rest).finish.passRate = caseMean CollectiveEntry.passRate (first :: rest) := by
  rw [finish_of_several h]
  exact pooled_mean (s := FoldAcc.pSum) (fun _ => rfl) fun _ _ => rfl

/-! ## Variance -/

theorem groupOf_allVarianceKnown : (groupOf first rest).allVarianceKnown =
    (first :: rest).all fun e => e.qualityVariance.isSome := by
  have hfold : ∀ (l : List CollectiveEntry) (a : FoldAcc),
      (l.foldl FoldAcc.push a).allVarianceKnown =
        (a.allVarianceKnown && l.all fun e => e.qualityVariance.isSome) := by
    intro l
    induction l with
    | nil => exact fun a => (Bool.and_true _).symm
    | cons e l ih =>
      intro a
      rw [List.foldl_cons, ih, List.all_cons, ← Bool.and_assoc]
      rfl
  exact hfold rest _

/-- A sum over the entries is the one over the populations they describe. -/
theorem sum_described {es : List CollectiveEntry} {parts : List (List ℝ)} {f : CollectiveEntry → ℚ}
    {g : List ℝ → ℝ} (h : List.Forall₂ Describes es parts)
    (hpoint : ∀ e ∈ es, ∀ xs, Describes e xs → g xs = f e) :
    (parts.map g).sum = ((es.map f).sum : ℚ) := by
  induction h with
  | nil => rw [List.map_nil, List.map_nil, List.sum_nil, List.sum_nil, Rat.cast_zero]
  | cons hhead _ ih =>
    rw [List.map_cons, List.map_cons, List.sum_cons, List.sum_cons, Rat.cast_add,
      ih fun e he => hpoint e (List.mem_cons_of_mem _ he),
      hpoint _ (List.mem_cons_self ..) _ hhead]

theorem Describes.length_eq {e : CollectiveEntry} {xs : List ℝ} (h : Describes e xs) :
    (xs.length : ℝ) = e.cases := by
  rw [h.cases]
  exact (Rat.cast_natCast _).symm

/-- An empty population weighs nothing, whatever its figures. -/
theorem Describes.weighted {e : CollectiveEntry} {xs : List ℝ} (h : Describes e xs) {x : ℝ} {y : ℚ}
    (hne : xs ≠ [] → x = y) : (xs.length : ℝ) * x = (y * e.cases : ℚ) := by
  rw [h.length_eq, Rat.cast_mul, mul_comm]
  by_cases hnil : xs = []
  · have hzero : (e.cases : ℝ) = 0 := by
      rw [← h.length_eq, hnil, List.length_nil, Nat.cast_zero]
    rw [hzero, mul_zero, mul_zero]
  · rw [hne hnil]

section Parts

variable {es : List CollectiveEntry} {parts : List (List ℝ)}

theorem mean_described (h : List.Forall₂ Describes es parts) :
    Moments.mean parts.flatten = caseMean CollectiveEntry.quality es := by
  rw [Moments.mean_flatten, caseMean_eq, Rat.cast_div,
    sum_described h (f := fun e => e.quality * e.cases) fun e _ xs hxs => hxs.weighted hxs.mean,
    sum_described h (f := CollectiveEntry.cases) fun e _ xs hxs => hxs.length_eq]

/-- **The second moments give the variance of the pooled population.** -/
theorem variance_described (h : List.Forall₂ Describes es parts)
    (hknown : ∀ e ∈ es, e.qualityVariance.isSome) : Moments.variance parts.flatten =
      (caseMean (fun e => e.qualityVariance.getD 0 + e.quality * e.quality) es -
        caseMean CollectiveEntry.quality es * caseMean CollectiveEntry.quality es : ℚ) := by
  have hpoint : ∀ e ∈ es, ∀ xs, Describes e xs →
      (xs.length : ℝ) * (Moments.variance xs + Moments.mean xs ^ 2) =
        ((e.qualityVariance.getD 0 + e.quality * e.quality) * e.cases : ℚ) := by
    intro e he xs hxs
    rcases Option.isSome_iff_exists.1 (hknown e he) with ⟨v, hv⟩
    refine hxs.weighted fun hne => ?_
    rw [hxs.mean hne, hxs.variance hne v hv, hv, Option.getD_some, Rat.cast_add, Rat.cast_mul, sq]
  rw [Moments.variance_flatten, mean_described h, Rat.cast_sub, Rat.cast_mul,
    caseMean_eq fun e => e.qualityVariance.getD 0 + e.quality * e.quality, Rat.cast_div,
    sum_described h hpoint,
    sum_described h (f := CollectiveEntry.cases) fun e _ xs hxs => hxs.length_eq, sq]

end Parts

theorem pooled_variance : (groupOf first rest).pooled.qualityVariance =
    if (first :: rest).all fun e => e.qualityVariance.isSome then
      some (max (caseMean (fun e => e.qualityVariance.getD 0 + e.quality * e.quality)
        (first :: rest) - caseMean CollectiveEntry.quality (first :: rest) *
          caseMean CollectiveEntry.quality (first :: rest)) 0)
    else none := by
  rw [← groupOf_allVarianceKnown, ← pooled_mean (s := FoldAcc.q2Sum) (fun _ => rfl) fun _ _ => rfl,
    ← pooled_mean (s := FoldAcc.qSum) (fun _ => rfl) fun _ _ => rfl]
  rfl

theorem finish_variance (h : 2 ≤ (first :: rest).length)
    (hknown : ∀ e ∈ first :: rest, e.qualityVariance.isSome) :
    ∃ v, (groupOf first rest).finish.qualityVariance = some v ∧
      ∀ parts, List.Forall₂ Describes (first :: rest) parts →
        v = Moments.variance parts.flatten := by
  have hall : ((first :: rest).all fun e => e.qualityVariance.isSome) = true :=
    List.all_eq_true.2 hknown
  rw [finish_of_several h, pooled_variance, if_pos hall]
  refine ⟨_, rfl, ?_⟩
  intro parts hparts
  -- a population's variance is never below zero, so the clamp does nothing
  have hnonneg := Moments.variance_nonneg parts.flatten
  rw [variance_described hparts hknown] at hnonneg ⊢
  rw [max_eq_left (Rat.cast_nonneg.1 hnonneg)]

theorem finish_partialVariance (h : 2 ≤ (first :: rest).length)
    (hunknown : ∃ e ∈ first :: rest, e.qualityVariance = none) :
    (groupOf first rest).finish.qualityVariance = none := by
  rw [finish_of_several h, pooled_variance, if_neg]
  rcases hunknown with ⟨e, he, hnone⟩
  intro hall
  have hsome := List.all_eq_true.1 hall e he
  rw [hnone] at hsome
  cases hsome

/-! ## Tags -/

/-- The tags of a group, while it is folded. -/
structure TagSets where
  judges : Finset String
  rubrics : Finset String
  determinism : Option String
  frozen : Coverage
  significance : Coverage

namespace TagSets

/-- The tags of a group's first entry. -/
def new (e : CollectiveEntry) : TagSets :=
  ⟨insertSome e.judgeProvider ∅, insertSome e.rubricFingerprint ∅, e.determinism, e.frozenDataset,
    e.significanceTested⟩

/-- The tags with those of one entry more. -/
def push (t : TagSets) (e : CollectiveEntry) : TagSets :=
  ⟨insertSome e.judgeProvider t.judges, insertSome e.rubricFingerprint t.rubrics,
    weakestDeterminism t.determinism e.determinism, t.frozen.fold e.frozenDataset,
    t.significance.fold e.significanceTested⟩

/-- The tags a group publishes. -/
def finish (t : TagSets) : EntryTags :=
  ⟨collapse t.judges, collapse t.rubrics, t.determinism, t.frozen, t.significance⟩

theorem push_right_comm {a b : CollectiveEntry} (ha : Canonical a.determinism)
    (hb : Canonical b.determinism) (t : TagSets) : (t.push a).push b = (t.push b).push a := by
  unfold push
  rw [weakest_right_comm ha hb, Coverage.fold_right_comm, Coverage.fold_right_comm t.significance]
  unfold insertSome
  rw [Finset.union_left_comm, Finset.union_left_comm b.rubricFingerprint.toFinset]

theorem push_comm {a b : CollectiveEntry} (ha : Canonical a.determinism)
    (hb : Canonical b.determinism) : (new a).push b = (new b).push a := by
  unfold push new
  rw [weakest_comm ha hb, Coverage.fold_comm, Coverage.fold_comm a.significanceTested]
  unfold insertSome
  rw [Finset.union_left_comm, Finset.union_left_comm b.rubricFingerprint.toFinset]

end TagSets

/-- The tags a group keeps. -/
def FoldAcc.tagSets (a : FoldAcc) : TagSets :=
  ⟨a.judges, a.rubrics, a.determinism, a.frozen, a.significance⟩

theorem tagSets_groupOf : (groupOf first rest).tagSets = rest.foldl TagSets.push (.new first) :=
  (List.foldl_hom FoldAcc.tagSets fun _ _ => rfl).symm

theorem collapse_insertSome (tag : Option String) : collapse (insertSome tag ∅) = tag := by
  cases tag with
  | none =>
    have hset : insertSome (none : Option String) ∅ = ∅ := Finset.union_empty _
    unfold collapse
    rw [hset, Finset.sort_empty]
  | some t =>
    have hset : insertSome (some t) ∅ = {t} := Finset.union_empty _
    unfold collapse
    rw [hset, Finset.sort_singleton]

/-- One entry publishes its own tags, as a group of one would. -/
theorem finish_tags : (groupOf first rest).finish.tags = (groupOf first rest).tagSets.finish := by
  cases rest with
  | nil =>
    change first.tags = (TagSets.new first).finish
    unfold TagSets.finish TagSets.new
    rw [collapse_insertSome, collapse_insertSome]
    rfl
  | cons e rest =>
    have hseveral : 2 ≤ (first :: e :: rest).length := Nat.le_add_left 2 rest.length
    rw [finish_of_several hseveral]
    rfl

/-- **The tags do not depend on which entry came first.** -/
theorem finish_tags_perm {first' : CollectiveEntry} {rest' : List CollectiveEntry}
    (h : (first :: rest).Perm (first' :: rest'))
    (hstamps : ∀ e ∈ first :: rest, Canonical e.determinism) :
    (groupOf first' rest').finish.tags = (groupOf first rest).finish.tags := by
  have hfold := Group.foldl_seeded_perm h
    (fun a ha b hb t => TagSets.push_right_comm (hstamps a ha) (hstamps b hb) t)
    fun a ha b hb => TagSets.push_comm (hstamps a ha) (hstamps b hb)
  rw [finish_tags, finish_tags, tagSets_groupOf, tagSets_groupOf, hfold]

end Group

/-! ## Folding -/

section Folded

variable {entries : List CollectiveEntry}

theorem exists_foldEntries {e : CollectiveEntry} (h : e ∈ entries) :
    ∃ f ∈ (foldEntries entries).1, f.key = e.key := by
  have hkey : e.key ∈ (foldEntries entries).1.map CollectiveEntry.key := by
    rw [keys_foldEntries, List.mem_eraseDups]
    exact List.mem_map_of_mem h
  exact List.mem_map.1 hkey

theorem foldEntries_order {entries' : List CollectiveEntry}
    (hstamps : ∀ e ∈ entries, Canonical e.determinism) (h : entries.Perm entries')
    {f : CollectiveEntry} (hf : f ∈ (foldEntries entries).1) :
    ∃ f' ∈ (foldEntries entries').1, f'.key = f.key ∧ f'.tags = f.tags := by
  rcases mem_foldEntries hf with ⟨first, rest, hbucket, hfold⟩
  have hfirst := mem_bucket.1 (hbucket ▸ List.mem_cons_self .. : first ∈ bucket entries f.key)
  rcases exists_foldEntries (h.subset hfirst.1) with ⟨f', hf', hkey⟩
  rw [hfirst.2] at hkey
  rcases mem_foldEntries hf' with ⟨first', rest', hbucket', hfold'⟩
  have hperm : (first :: rest).Perm (first' :: rest') := by
    rw [← hbucket, ← hbucket', hkey]
    exact bucket_perm h f.key
  refine ⟨f', hf', hkey, ?_⟩
  rw [hfold, hfold']
  refine finish_tags_perm hperm ?_
  intro e he
  rw [← hbucket] at he
  exact hstamps e (mem_bucket.1 he).1

/-- **Folding equals pooling**, where the determinism stamps are of the vocabulary, as those of
sanitised entries are. -/
theorem foldEntries_pools (hstamps : ∀ e ∈ entries, Canonical e.determinism) :
    FoldsAsPool entries := by
  refine ⟨keys_foldEntries, nodup_foldEntries, ?_, ?_, ?_, ?_, ?_, ?_, ?_⟩
  · rw [← length_foldEntries, Nat.add_sub_cancel_left]
  · intro f hf e hone
    rcases mem_foldEntries hf with ⟨first, rest, hbucket, hfold⟩
    -- a bucket of one entry is passed on as it is
    rw [hbucket, List.cons.injEq] at hone
    rw [hfold, hone.1, hone.2]
    rfl
  · intro f hf hfits
    rcases mem_foldEntries hf with ⟨first, rest, hbucket, hfold⟩
    rw [hbucket] at hfits ⊢
    rw [hfold, finish_nCases]
    omega
  · intro f hf hseveral
    rcases mem_foldEntries hf with ⟨first, rest, hbucket, hfold⟩
    rw [hbucket] at hseveral ⊢
    rw [hfold]
    exact ⟨finish_quality hseveral, finish_passRate hseveral⟩
  · intro f hf hseveral hknown
    rcases mem_foldEntries hf with ⟨first, rest, hbucket, hfold⟩
    rw [hbucket] at hseveral hknown ⊢
    rw [hfold]
    exact finish_variance hseveral hknown
  · intro f hf hseveral hunknown
    rcases mem_foldEntries hf with ⟨first, rest, hbucket, hfold⟩
    rw [hbucket] at hseveral hunknown
    rw [hfold]
    exact finish_partialVariance hseveral hunknown
  · intro entries' h f hf
    exact foldEntries_order hstamps h hf

/-- Three reports of one bucket, the last of another judge, and one of a bucket of its own. -/
theorem foldEntries_pools_sample : FoldsAsPool
    [{ reported "a" (9 / 10) 30 with qualityVariance := some (1 / 100) },
      { reported "a" (7 / 10) 10 with qualityVariance := some 0, judgeProvider := some "openai" },
      { reported "a" (1 / 10) 20 with model := "opus" },
      { reported "a" (6 / 10) 40 with
          qualityVariance := some (2 / 100), judgeProvider := some "google",
          determinism := some "sampled" }] :=
  foldEntries_pools (by decide +kernel)

end Folded

end LightTrack
