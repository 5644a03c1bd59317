import LightTrack.Collective.Accumulate
import LightTrack.Lib.Group

/-! # A fair and exact merge

`FairAndExact` says what the leaderboard promises of a set of entries: it does not depend on their
order, no contributor of several owns a row, the figures lie between the contributed ones, and the
counts are the contributed ones added up.

* `fairWeights` : no contributor of several holds more than its share,
* `merged_within` : the merged figures lie between the contributed ones,
* `rowOf_cases`, `rowOf_runs` : the published counts are the sums as 32-bit numbers,
* `merge_fair_iff` : the merge is fair and exact just if the cases of every bucket fit,
* `merge_counts_wrap` : a bucket whose cases do not.
-/

namespace LightTrack

/-- A figure lies between the least and the greatest of the contributed ones. -/
def Within (figures : List ℚ) (x : ℚ) : Prop := (∃ a ∈ figures, a ≤ x) ∧ ∃ b ∈ figures, x ≤ b

/-- The cases of a bucket. -/
def totalCases (es : List CollectiveEntry) : ℕ := (es.map fun e => e.nCases.toNat).sum

/-- The runs of a bucket. -/
def totalRuns (es : List CollectiveEntry) : ℕ := (es.map fun e => e.nRuns.toNat).sum

/-- The weight of one contributor in a bucket. -/
def weightOf (es : List CollectiveEntry) (contributor : String) : ℚ :=
  (((es.zip (weightsOf es)).filter fun x => x.1.contributorId = contributor).map Prod.snd).sum

/-- The distinct contributors of a bucket. -/
def contributorsOf (es : List CollectiveEntry) : Finset String :=
  (es.map CollectiveEntry.contributorId).toFinset

/-- No two entries share contributor and bucket. -/
def DistinctEntries (entries : List CollectiveEntry) : Prop :=
  (entries.map fun e => (e.contributorId, e.key)).Nodup

instance (entries : List CollectiveEntry) : Decidable (DistinctEntries entries) :=
  inferInstanceAs (Decidable (List.Nodup _))

/-- The weights of a bucket give no contributor of several more than its share, and are the case
counts where no source exceeds it. -/
structure FairWeights (es : List CollectiveEntry) : Prop where
  bounded : 2 ≤ (contributorsOf es).card →
    ∀ c, weightOf es c ≤ MAX_SOURCE_WEIGHT_SHARE * (weightsOf es).sum
  raw : (∀ e ∈ es, e.cases ≤ MAX_SOURCE_WEIGHT_SHARE * (es.map CollectiveEntry.cases).sum) →
    weightsOf es = es.map CollectiveEntry.cases

/-- The row of a bucket publishes figures between the contributed ones, rounded, and the exact
counts. -/
structure ExactRow (sqrt : ℚ → ℚ) (checks : Bool) (floor : UInt32) (es : List CollectiveEntry)
    (r : LeaderboardRow) : Prop where
  merged : ∃ g, mergeBucket checks es = .ok g ∧ r = rowOf sqrt floor r.key g ∧
    Within (es.map CollectiveEntry.quality) g.acc.quality ∧
    Within (es.map CollectiveEntry.passRate) g.acc.passRate ∧
    Within (es.map CollectiveEntry.avgCostUsd) g.acc.cost
  cases : r.nCases.toNat = totalCases es
  runs : r.nRuns.toNat = totalRuns es

/-- What the leaderboard promises of a set of entries. -/
structure FairAndExact (sqrt : ℚ → ℚ) (checks : Bool) (floor : UInt32)
    (entries : List CollectiveEntry) : Prop where
  order : ∀ entries', entries.Perm entries' →
    mergeLeaderboard sqrt checks floor entries' = mergeLeaderboard sqrt checks floor entries
  weights : ∀ k ∈ bucketKeys entries, FairWeights (bucket entries k)
  rows : ∃ rows, mergeLeaderboard sqrt checks floor entries = .ok rows ∧
    (rows.map LeaderboardRow.key).Perm (bucketKeys entries) ∧
    ∀ r ∈ rows, ExactRow sqrt checks floor (bucket entries r.key) r

/-! ## Weights -/

section Weights

variable {es : List CollectiveEntry}

/-- In a bucket whose contributors differ, the weight of a contributor is one of the weights. -/
theorem weightOf_mem (hes : (es.map CollectiveEntry.contributorId).Nodup) (c : String) :
    weightOf es c = 0 ∨ weightOf es c ∈ weightsOf es := by
  unfold weightOf
  have hkeys : ((es.zip (weightsOf es)).map fun x => x.1.contributorId).Nodup := by
    have hfst : (es.zip (weightsOf es)).map Prod.fst = es := List.map_fst_zip length_weightsOf.ge
    have hmap : (es.zip (weightsOf es)).map (fun x => x.1.contributorId) =
        es.map CollectiveEntry.contributorId := by
      conv_rhs => rw [← hfst, List.map_map]
      rfl
    rwa [hmap]
  by_cases hmem : ∃ x ∈ es.zip (weightsOf es), x.1.contributorId = c
  · rcases hmem with ⟨x, hx, rfl⟩
    right
    have hone := Group.filter_key hkeys hx
    have hfilter : (es.zip (weightsOf es)).filter
        (fun y => decide (y.1.contributorId = x.1.contributorId)) = [x] := hone
    rw [hfilter, List.map_singleton, List.sum_singleton]
    exact (List.of_mem_zip hx).2
  · left
    have hnone : (es.zip (weightsOf es)).filter (fun y => decide (y.1.contributorId = c)) = [] := by
      rw [List.filter_eq_nil_iff]
      intro x hx
      rw [decide_eq_true_eq]
      exact fun h => hmem ⟨x, hx, h⟩
    rw [hnone]
    rfl

theorem weightsOf_nonneg (h : ∀ e ∈ es, 0 < e.cases) : 0 ≤ (weightsOf es).sum :=
  List.sum_nonneg fun w hw => (weightsOf_pos h w hw).le

/-- **No contributor of several owns a row.** -/
theorem fairWeights (hes : (es.map CollectiveEntry.contributorId).Nodup)
    (hpos : ∀ e ∈ es, 0 < e.cases) : FairWeights es := by
  constructor
  · intro htwo c
    have hlen : 2 ≤ es.length := by
      rw [contributorsOf, List.toFinset_card_of_nodup hes, List.length_map] at htwo
      exact htwo
    rcases weightOf_mem hes c with h | h
    · rw [h]
      exact mul_nonneg share_pos.le (weightsOf_nonneg hpos)
    · rw [weightsOf_eq hlen] at h ⊢
      exact Share.le_share_of_mem_capped half_le_share share_lt_one nonneg_of_mem_cases _ h
  · intro hfair
    rcases Nat.lt_or_ge es.length 2 with hlen | hlen
    · exact weightsOf_short hlen
    · rw [weightsOf_eq hlen]
      apply Share.capped_eq_self share_lt_one
      intro c hc
      rcases List.mem_map.1 hc with ⟨e, he, rfl⟩
      exact hfair e he

end Weights

/-! ## Figures -/

/-- A mean under positive weights lies between the least and the greatest of its values. -/
theorem within_mean {l : List (ℚ × ℚ)} (hne : l ≠ []) (hpos : ∀ p ∈ l, 0 < p.1) :
    Within (l.map Prod.snd) (Share.mean l) := by
  have hne' : l.map Prod.snd ≠ [] := fun h => hne (List.map_eq_nil_iff.1 h)
  have hw : ∀ p ∈ l, 0 ≤ p.1 := fun p hp => (hpos p hp).le
  have hsum : 0 < (l.map Prod.fst).sum := by
    apply List.sum_pos
    · intro w hw
      rcases List.mem_map.1 hw with ⟨p, hp, rfl⟩
      exact hpos p hp
    · exact fun h => hne (List.map_eq_nil_iff.1 h)
  constructor
  · rcases hmin : (l.map Prod.snd).min? with - | a
    · exact absurd (List.min?_eq_none_iff.1 hmin) hne'
    · rcases List.min?_eq_some_iff.1 hmin with ⟨hmem, hle⟩
      exact ⟨a, hmem, Share.le_mean hw hsum fun p hp => hle _ (List.mem_map_of_mem hp)⟩
  · rcases hmax : (l.map Prod.snd).max? with - | b
    · exact absurd (List.max?_eq_none_iff.1 hmax) hne'
    · rcases List.max?_eq_some_iff.1 hmax with ⟨hmem, hle⟩
      exact ⟨b, hmem, Share.mean_le hw hsum fun p hp => hle _ (List.mem_map_of_mem hp)⟩

section Figures

variable {es : List CollectiveEntry}

/-- A figure of the bucket: its weighted sum over the weights. -/
theorem within_of_sums (hne : es ≠ []) (hpos : ∀ e ∈ es, 0 < e.cases) (f : CollectiveEntry → ℚ)
    {w fw : ℚ} (hw : w = ((es.zip (weightsOf es)).map Prod.snd).sum)
    (hfw : fw = ((es.zip (weightsOf es)).map fun x => f x.1 * x.2).sum) :
    Within (es.map f) (if w ≤ 0 then 0 else fw / w) := by
  have hsnd : (es.zip (weightsOf es)).map Prod.snd = weightsOf es :=
    List.map_snd_zip length_weightsOf.le
  have hfst : (es.zip (weightsOf es)).map Prod.fst = es := List.map_fst_zip length_weightsOf.ge
  -- the sources as pairs of weight and figure
  have hpairs : ((es.zip (weightsOf es)).map fun x => (x.2, f x.1)).map Prod.snd = es.map f := by
    conv_rhs => rw [← hfst, List.map_map]
    rw [List.map_map]
    rfl
  have hmean : fw / w = Share.mean ((es.zip (weightsOf es)).map fun x => (x.2, f x.1)) := by
    unfold Share.mean
    rw [List.map_map, List.map_map, hw, hfw]
    rfl
  have hwpos : 0 < w := by
    rw [hw, hsnd]
    apply List.sum_pos _ (weightsOf_pos hpos)
    intro hnil
    have hlen := congrArg List.length hnil
    rw [length_weightsOf, List.length_nil] at hlen
    exact hne (List.length_eq_zero_iff.1 hlen)
  rw [if_neg (not_le.2 hwpos), hmean, ← hpairs]
  apply within_mean
  · intro hnil
    rw [List.map_eq_nil_iff] at hnil
    rw [hnil, List.map_nil] at hfst
    exact hne hfst.symm
  · intro p hp
    rcases List.mem_map.1 hp with ⟨x, hx, rfl⟩
    exact weightsOf_pos hpos _ (List.of_mem_zip hx).2

/-- **The merged figures lie between the contributed ones.** -/
theorem merged_within (hne : es ≠ []) (hpos : ∀ e ∈ es, 0 < e.cases) :
    Within (es.map CollectiveEntry.quality) (mergedOf es).acc.quality ∧
      Within (es.map CollectiveEntry.passRate) (mergedOf es).acc.passRate ∧
      Within (es.map CollectiveEntry.avgCostUsd) (mergedOf es).acc.cost := by
  have hsum : ∀ {f : Acc → ℚ} {g : Weighed → ℚ}, (∀ a x, f (Acc.folded a x) = f a + g x) →
      f Acc.default = 0 → f ((es.zip (weightsOf es)).foldl Acc.folded Acc.default) =
        ((es.zip (weightsOf es)).map g).sum := by
    intro f g hstep hzero
    rw [Group.foldl_additive hstep, hzero, zero_add]
  have hw := hsum (f := Acc.w) (g := Prod.snd) (fun _ _ => rfl) rfl
  refine ⟨?_, ?_, ?_⟩
  · exact within_of_sums hne hpos CollectiveEntry.quality hw (hsum (f := Acc.qW) (fun _ _ => rfl) rfl)
  · exact within_of_sums hne hpos CollectiveEntry.passRate hw (hsum (f := Acc.pW) (fun _ _ => rfl) rfl)
  · exact within_of_sums hne hpos CollectiveEntry.avgCostUsd hw
      (hsum (f := Acc.cW) (fun _ _ => rfl) rfl)

end Figures

/-! ## Counts -/

section Counts

variable {sqrt : ℚ → ℚ} {checks : Bool} {floor : UInt32} {es entries : List CollectiveEntry}
  {k : Key} {g : MergeGroup} {r : LeaderboardRow}

theorem sum_zip (f : CollectiveEntry → ℕ) :
    ((es.zip (weightsOf es)).map fun x => f x.1).sum = (es.map f).sum := by
  have hfst : (es.zip (weightsOf es)).map Prod.fst = es := List.map_fst_zip length_weightsOf.ge
  conv_rhs => rw [← hfst, List.map_map]
  rfl

/-- The published case count is the sum as a 32-bit number. -/
theorem rowOf_cases : (rowOf sqrt floor k (mergedOf es)).nCases.toNat = totalCases es % 2 ^ 32 := by
  have hcases : (mergedOf es).acc.cases.toNat = (0 + totalCases es) % 2 ^ 64 := by
    change ((es.zip (weightsOf es)).foldl Acc.folded Acc.default).cases.toNat = _
    rw [Acc.foldl_cases, sum_zip fun e => e.nCases.toNat]
    rfl
  change (mergedOf es).acc.cases.toUInt32.toNat = _
  rw [UInt64.toNat_toUInt32, hcases]
  omega

/-- The published run count is the sum as a 32-bit number. -/
theorem rowOf_runs : (rowOf sqrt floor k (mergedOf es)).nRuns.toNat = totalRuns es % 2 ^ 32 := by
  change ((es.zip (weightsOf es)).foldl Acc.folded Acc.default).runs.toNat = _
  rw [Acc.foldl_runs, sum_zip fun e => e.nRuns.toNat]
  change (0 + totalRuns es) % 2 ^ 32 = _
  rw [zero_add]

/-- A bucket whose counts fit merges, checked or not. -/
theorem countable (hcases : totalCases es < 2 ^ 64) (hruns : totalRuns es < 2 ^ 32) :
    Countable checks es := by
  have hvar : ((es.zip (weightsOf es)).map fun x => Acc.varCasesOf (x.1.sample x.2)).sum ≤
      totalCases es := by
    rw [totalCases, ← sum_zip fun e => e.nCases.toNat]
    apply List.sum_le_sum
    intro x _
    unfold Acc.varCasesOf
    split_ifs
    · exact le_rfl
    · exact Nat.zero_le _
  have hzero : Acc.default.cases.toNat = 0 ∧ Acc.default.runs.toNat = 0 ∧
      Acc.default.varCases.toNat = 0 := ⟨rfl, rfl, rfl⟩
  intro _
  unfold Acc.Room
  rw [sum_zip fun e => e.nCases.toNat, sum_zip fun e => e.nRuns.toNat, hzero.1, hzero.2.1,
    hzero.2.2]
  unfold totalCases at hcases hvar
  unfold totalRuns at hruns
  refine ⟨by omega, by omega, ?_⟩
  rw [zero_add]
  exact hvar.trans_lt (by omega)

theorem key_rowOf {g : MergeGroup} : (rowOf sqrt floor k g).key = k := rfl

theorem sortByQuality_perm (rows : List LeaderboardRow) : (sortByQuality rows).Perm rows :=
  List.mergeSort_perm ..

/-- The rows of a leaderboard are those of its buckets. -/
theorem mergeLeaderboard_rows {rows : List LeaderboardRow}
    (h : mergeLeaderboard sqrt checks floor entries = .ok rows) :
    (rows.map LeaderboardRow.key).Perm (bucketKeys entries) ∧
      ∀ r ∈ rows, mergeBucket checks (bucket entries r.key) =
          .ok (mergedOf (bucket entries r.key)) ∧
        r = rowOf sqrt floor r.key (mergedOf (bucket entries r.key)) := by
  rcases mergeLeaderboard_eq_ok_iff.1 h with ⟨hcount, rfl⟩
  have hperm := sortByQuality_perm
    ((bucketKeys entries).map fun k => rowOf sqrt floor k (mergedOf (bucket entries k)))
  constructor
  · refine (hperm.map _).trans ?_
    rw [List.map_map]
    have hkeys : LeaderboardRow.key ∘ (fun k => rowOf sqrt floor k (mergedOf (bucket entries k))) =
        id := rfl
    rw [hkeys, List.map_id]
  · intro r hr
    rcases List.mem_map.1 (hperm.mem_iff.1 hr) with ⟨k, hk, rfl⟩
    exact ⟨mergeBucket_eq_ok_iff.2 ⟨hcount k hk, rfl⟩, rfl⟩

end Counts

/-! ## The merge -/

section Merge

variable {sqrt : ℚ → ℚ} {checks : Bool} {floor : UInt32} {entries : List CollectiveEntry}

theorem contributors_nodup (h : DistinctEntries entries) (k : Key) :
    ((bucket entries k).map CollectiveEntry.contributorId).Nodup := by
  have hsub : ((bucket entries k).map fun e => (e.contributorId, e.key)).Nodup :=
    List.Nodup.sublist (List.Sublist.map _ List.filter_sublist) h
  have hpair : (bucket entries k).map (fun e => (e.contributorId, e.key)) =
      ((bucket entries k).map CollectiveEntry.contributorId).map fun c => (c, k) := by
    rw [List.map_map]
    apply List.map_congr_left
    intro e he
    exact congrArg _ (mem_bucket.1 he).2
  rw [hpair] at hsub
  exact List.Nodup.of_map _ hsub

/-- A source reports no more runs than cases. -/
theorem totalRuns_le (hsane : ∀ e ∈ entries, e.Sanitised) (k : Key) :
    totalRuns (bucket entries k) ≤ totalCases (bucket entries k) := by
  apply List.sum_le_sum
  intro e he
  exact (hsane e (mem_bucket.1 he).1).runs_le

theorem totalCases_of_not_mem {k : Key} (h : k ∉ bucketKeys entries) :
    totalCases (bucket entries k) = 0 := by
  have hnil : bucket entries k = [] := by
    rw [List.eq_nil_iff_forall_not_mem]
    intro e he
    exact h (mem_bucketKeys.2 ⟨e, mem_bucket.1 he⟩)
  rw [hnil]
  rfl

/-- **The merge of sanitised entries, no two of one contributor and bucket, is fair and exact just if
the cases of every bucket add up to a 32-bit number.** -/
theorem merge_fair_iff (hsane : ∀ e ∈ entries, e.Sanitised) (hdistinct : DistinctEntries entries) :
    FairAndExact sqrt checks floor entries ↔ ∀ k, totalCases (bucket entries k) < 2 ^ 32 := by
  have hpos : ∀ k, ∀ e ∈ bucket entries k, 0 < e.cases :=
    fun k e he => (hsane e (mem_bucket.1 he).1).cases_pos
  constructor
  · intro h k
    rcases h.rows with ⟨rows, -, hkeys, hexact⟩
    by_cases hk : k ∈ bucketKeys entries
    · rcases List.mem_map.1 (hkeys.mem_iff.2 hk) with ⟨r, hr, rfl⟩
      exact (hexact r hr).cases ▸ r.nCases.toNat_lt
    · rw [totalCases_of_not_mem hk]
      decide
  · intro h
    have hruns : ∀ k, totalRuns (bucket entries k) < 2 ^ 32 :=
      fun k => (totalRuns_le hsane k).trans_lt (h k)
    -- no counter overflows, so the merge returns
    have hrows : mergeLeaderboard sqrt checks floor entries = .ok _ := mergeLeaderboard_eq_ok_iff.2
      ⟨fun k _ => countable ((h k).trans (by decide)) (hruns k), rfl⟩
    rcases mergeLeaderboard_rows hrows with ⟨hkeys, hof⟩
    refine ⟨?_, ?_, _, hrows, hkeys, ?_⟩
    · intro entries' hperm
      exact (mergeLeaderboard_perm sqrt floor hperm fun e he => (hsane e he).determinism).symm
    · intro k _
      exact fairWeights (contributors_nodup hdistinct k) (hpos k)
    · intro r hr
      have hk : r.key ∈ bucketKeys entries := hkeys.mem_iff.1 (List.mem_map_of_mem hr)
      rcases hof r hr with ⟨hg, heq⟩
      refine ⟨⟨_, hg, heq, merged_within (bucket_ne_nil hk) (hpos _)⟩, ?_, ?_⟩
      · rw [heq, rowOf_cases, key_rowOf, Nat.mod_eq_of_lt (h _)]
      · rw [heq, rowOf_runs, key_rowOf, Nat.mod_eq_of_lt (hruns _)]

end Merge

/-! ## Two sources, and very many -/

/-- A report of one model and task type. -/
def reported (contributor : String) (quality : ℚ) (cases : UInt32) : CollectiveEntry :=
  { contributorId := contributor, provider := "anthropic", model := "haiku", taskType := "qa"
    quality := quality, passRate := quality, avgCostUsd := 3 / 1000
    p50LatencyMs := some 800, p95LatencyMs := none, nRuns := 1, nCases := cases
    qualityVariance := none, judgeProvider := none, rubricFingerprint := none
    determinism := some "exact", frozenDataset := .all, significanceTested := .unknown
    receivedAt := 0 }

theorem sanitised_reported {contributor : String} {quality : ℚ} {cases : UInt32}
    (hquality : 0 ≤ quality ∧ quality ≤ 1) (hcases : 1 ≤ cases.toNat) :
    (reported contributor quality cases).Sanitised where
  runs := le_rfl
  runs_le := hcases
  quality := hquality
  passRate := hquality
  cost := by
    change (0 : ℚ) ≤ 3 / 1000
    norm_num
  variance := by
    rintro v ⟨⟩
  determinism := by
    rintro s ⟨⟩
    exact List.mem_cons_self ..

/-- A large source and a small one. -/
theorem merge_fair_sample :
    FairAndExact id true 30 [reported "a" (9 / 10) 10000, reported "b" (1 / 10) 10] := by
  have hsane : ∀ e ∈ [reported "a" (9 / 10) 10000, reported "b" (1 / 10) 10], e.Sanitised := by
    intro e he
    rcases List.mem_pair.1 he with rfl | rfl
    · exact sanitised_reported (by norm_num) (by decide)
    · exact sanitised_reported (by norm_num) (by decide)
  refine (merge_fair_iff hsane (by decide +kernel)).2 ?_
  intro k
  have hle : totalCases (bucket [reported "a" (9 / 10) 10000, reported "b" (1 / 10) 10] k) ≤
      totalCases [reported "a" (9 / 10) 10000, reported "b" (1 / 10) 10] :=
    List.Sublist.sum_le_sum (List.Sublist.map _ List.filter_sublist) (fun _ _ => Nat.zero_le _)
  exact hle.trans_lt (by decide +kernel)

/-- So many sources of a million cases each. -/
def crowd (n : ℕ) : List CollectiveEntry :=
  (List.range n).map fun i => reported (String.ofList (List.replicate i 'c')) (8 / 10) 1000000

theorem mem_crowd {n : ℕ} {e : CollectiveEntry} (he : e ∈ crowd n) :
    e.Sanitised ∧ e.nCases = 1000000 ∧ e.key = keyOf "anthropic" "haiku" "qa" := by
  rcases List.mem_map.1 he with ⟨i, -, rfl⟩
  exact ⟨sanitised_reported (by norm_num) (by decide), rfl, rfl⟩

theorem distinct_crowd (n : ℕ) : DistinctEntries (crowd n) := by
  unfold DistinctEntries crowd
  rw [List.map_map]
  apply List.Nodup.map _ List.nodup_range
  intro i j hij
  have hids := String.ofList_injective (congrArg Prod.fst hij)
  simpa using congrArg List.length hids

theorem bucket_crowd (n : ℕ) : bucket (crowd n) (keyOf "anthropic" "haiku" "qa") = crowd n := by
  unfold bucket
  rw [List.filter_eq_self]
  intro e he
  exact decide_eq_true (mem_crowd he).2.2

theorem totals_crowd (n : ℕ) : totalCases (crowd n) = n * 1000000 ∧ totalRuns (crowd n) = n := by
  unfold totalCases totalRuns crowd
  rw [List.map_map, List.map_map]
  constructor
  · have hconst : (fun e : CollectiveEntry => e.nCases.toNat) ∘
        (fun i : ℕ => reported (String.ofList (List.replicate i 'c')) (8 / 10) 1000000) =
          fun _ => 1000000 := rfl
    rw [hconst, List.map_const', List.sum_replicate_nat, List.length_range]
  · have hconst : (fun e : CollectiveEntry => e.nRuns.toNat) ∘
        (fun i : ℕ => reported (String.ofList (List.replicate i 'c')) (8 / 10) 1000000) = fun _ => 1 := rfl
    rw [hconst, List.map_const', List.sum_replicate_nat, List.length_range, mul_one]

/-- 4295 sources of a million cases each: the row publishes 32704 cases. -/
theorem merge_counts_wrap : ∃ entries : List CollectiveEntry,
    (∀ e ∈ entries, e.Sanitised ∧ e.nCases = 1000000) ∧ DistinctEntries entries ∧
      ¬ FairAndExact id true 30 entries ∧
        ∃ rows, mergeLeaderboard id true 30 entries = .ok rows ∧
          ∃ r ∈ rows, r.nCases.toNat = 32704 ∧ totalCases (bucket entries r.key) = 4295000000 := by
  have hbucket : ∀ k ∈ bucketKeys (crowd 4295), bucket (crowd 4295) k = crowd 4295 := by
    intro k hk
    rcases mem_bucketKeys.1 hk with ⟨e, he, rfl⟩
    rw [(mem_crowd he).2.2]
    exact bucket_crowd 4295
  have hcases : totalCases (crowd 4295) = 4295000000 := (totals_crowd 4295).1
  have hcount : ∀ k ∈ bucketKeys (crowd 4295), Countable true (bucket (crowd 4295) k) := by
    intro k hk
    rw [hbucket k hk]
    apply countable
    · rw [hcases]
      norm_num
    · rw [(totals_crowd 4295).2]
      norm_num
  have hrows : mergeLeaderboard id _ 30 (crowd 4295) = .ok _ :=
    mergeLeaderboard_eq_ok_iff.2 ⟨hcount, rfl⟩
  rcases mergeLeaderboard_rows hrows with ⟨hkeys, hof⟩
  have hkey : keyOf "anthropic" "haiku" "qa" ∈ bucketKeys (crowd 4295) :=
    mem_bucketKeys.2 ⟨_, List.mem_map_of_mem (List.mem_range.2 (by norm_num : 0 < 4295)), rfl⟩
  rcases List.mem_map.1 (hkeys.mem_iff.2 hkey) with ⟨r, hr, hrkey⟩
  rcases hof r hr with ⟨-, heq⟩
  have htotal : totalCases (bucket (crowd 4295) r.key) = 4295000000 := by
    rw [hrkey, bucket_crowd, hcases]
  have hpublished : r.nCases.toNat = 32704 := by
    rw [heq, rowOf_cases, htotal]
    norm_num
  refine ⟨crowd 4295, fun e he => ⟨(mem_crowd he).1, (mem_crowd he).2.1⟩, distinct_crowd 4295, ?_,
    _, hrows, r, hr, hpublished, htotal⟩
  intro hfair
  rcases hfair.rows with ⟨rows', hrows', -, hexact⟩
  rw [hrows] at hrows'
  have hcount := (hexact r (Except.ok.inj hrows' ▸ hr)).cases
  rw [hpublished, htotal] at hcount
  exact absurd hcount (by decide)

end LightTrack
