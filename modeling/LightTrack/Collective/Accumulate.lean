import LightTrack.Collective.Weights
import Mathlib.Tactic.Abel

/-! # What the accumulator holds

* `foldSamples_eq` : the samples of a bucket fold into sums, sets and tags, unless a checked counter
  overflows,
* `foldSamples_perm` : in whatever order they come,
* `mergeLeaderboard_perm` : so the leaderboard does not depend on the order of the entries.
-/

namespace LightTrack

/-- A source with its weight. -/
abbrev Weighed := CollectiveEntry × ℚ

namespace Acc

/-- The counters after a sample, wrapped. -/
def counted (a : Acc) (s : Sample) : UInt64 × UInt32 × UInt64 :=
  (a.cases + s.cases.toUInt64, a.runs + s.runs,
    if s.variance.isSome then a.varCases + s.cases.toUInt64 else a.varCases)

/-- The accumulator after a source, its counters wrapped. -/
def folded (a : Acc) (x : Weighed) : Acc :=
  a.added (x.1.sample x.2) (some x.1.contributorId) (a.counted (x.1.sample x.2))

/-- How many cases of a sample carry a variance. -/
def varCasesOf (s : Sample) : ℕ := if s.variance.isSome then s.cases.toNat else 0

/-- No counter overflows on a sample. -/
def Fits (a : Acc) (s : Sample) : Prop :=
  a.cases.toNat + s.cases.toNat < 2 ^ 64 ∧ a.runs.toNat + s.runs.toNat < 2 ^ 32 ∧
    a.varCases.toNat + varCasesOf s < 2 ^ 64

instance (a : Acc) (s : Sample) : Decidable (a.Fits s) := inferInstanceAs (Decidable (_ ∧ _))

/-- No counter overflows over the sources. -/
def Room (a : Acc) (l : List Weighed) : Prop :=
  a.cases.toNat + (l.map fun x => x.1.nCases.toNat).sum < 2 ^ 64 ∧
    a.runs.toNat + (l.map fun x => x.1.nRuns.toNat).sum < 2 ^ 32 ∧
      a.varCases.toNat + (l.map fun x => varCasesOf (x.1.sample x.2)).sum < 2 ^ 64

instance (a : Acc) (l : List Weighed) : Decidable (a.Room l) :=
  inferInstanceAs (Decidable (_ ∧ _))

theorem room_nil (a : Acc) : a.Room [] :=
  ⟨a.cases.toNat_lt, a.runs.toNat_lt, a.varCases.toNat_lt⟩

theorem room_perm {a : Acc} {l l' : List Weighed} (h : l.Perm l') : a.Room l ↔ a.Room l' := by
  unfold Room
  rw [(h.map _).sum_eq, (h.map fun x => x.1.nRuns.toNat).sum_eq,
    (h.map fun x => varCasesOf (x.1.sample x.2)).sum_eq]

/-- Three guards with one error. -/
theorem guards_eq {ε α β γ : Type} {P Q R : Prop} [Decidable P] [Decidable Q] [Decidable R] {e : ε}
    {x : α} {y : β} {z : γ} :
    (do
      let a ← (if P then .error e else .ok x : Except ε α)
      let b ← (if Q then .error e else .ok y : Except ε β)
      let c ← (if R then .error e else .ok z : Except ε γ)
      pure (a, b, c)) = if P ∨ Q ∨ R then .error e else .ok (x, y, z) := by
  by_cases hP : P
  · rw [if_pos hP, if_pos (Or.inl hP)]
    rfl
  · by_cases hQ : Q
    · rw [if_neg hP, if_pos hQ, if_pos (Or.inr (Or.inl hQ))]
      rfl
    · by_cases hR : R
      · rw [if_neg hP, if_neg hQ, if_pos hR, if_pos (Or.inr (Or.inr hR))]
        rfl
      · rw [if_neg hP, if_neg hQ, if_neg hR, if_neg (by tauto)]
        rfl

/-- A sample fits, or a counter overflows. -/
theorem addCounts_eq (checks : Bool) (a : Acc) (s : Sample) :
    a.addCounts checks s =
      if checks = true ∧ ¬ a.Fits s then .error .add else .ok (a.counted s) := by
  have hcast : s.cases.toUInt64.toNat = s.cases.toNat := UInt32.toNat_toUInt64 _
  have hvar : a.addVarCases checks s =
      if checks = true ∧ 2 ^ 64 ≤ a.varCases.toNat + varCasesOf s then .error .add
      else .ok (a.counted s).2.2 := by
    have hlt := a.varCases.toNat_lt
    unfold addVarCases addU64 varCasesOf counted
    by_cases hsome : s.variance.isSome = true
    · simp only [hsome, if_true, hcast]
    · simp only [hsome, Bool.false_eq_true, if_false, Nat.add_zero, not_le.2 hlt, and_false]
  have hfits : (checks = true ∧ ¬ a.Fits s) ↔
      (checks = true ∧ 2 ^ 64 ≤ a.cases.toNat + s.cases.toUInt64.toNat) ∨
        (checks = true ∧ 2 ^ 32 ≤ a.runs.toNat + s.runs.toNat) ∨
          (checks = true ∧ 2 ^ 64 ≤ a.varCases.toNat + varCasesOf s) := by
    unfold Fits
    rw [hcast, ← not_lt, ← not_lt, ← not_lt]
    tauto
  unfold addCounts
  rw [hvar]
  unfold addU64 addU32
  rw [guards_eq]
  exact (if_congr hfits rfl rfl).symm

theorem room_cons {a : Acc} {x : Weighed} {l : List Weighed} :
    a.Room (x :: l) ↔ a.Fits (x.1.sample x.2) ∧ (a.folded x).Room l := by
  have hcast : x.1.nCases.toUInt64.toNat = x.1.nCases.toNat := UInt32.toNat_toUInt64 _
  have hcases : (a.folded x).cases.toNat = (a.cases.toNat + x.1.nCases.toNat) % 2 ^ 64 := by
    rw [← hcast]
    exact UInt64.toNat_add ..
  have hruns : (a.folded x).runs.toNat = (a.runs.toNat + x.1.nRuns.toNat) % 2 ^ 32 :=
    UInt32.toNat_add ..
  have hvar : (a.folded x).varCases.toNat =
      (a.varCases.toNat + varCasesOf (x.1.sample x.2)) % 2 ^ 64 := by
    have hlt := a.varCases.toNat_lt
    have hfolded : (a.folded x).varCases = if x.1.qualityVariance.isSome = true then
        a.varCases + x.1.nCases.toUInt64 else a.varCases := rfl
    have hof : varCasesOf (x.1.sample x.2) =
        if x.1.qualityVariance.isSome = true then x.1.nCases.toNat else 0 := rfl
    rw [hfolded, hof]
    split_ifs
    · rw [UInt64.toNat_add, hcast]
    · rw [Nat.add_zero, Nat.mod_eq_of_lt hlt]
  unfold Room Fits
  rw [hcases, hruns, hvar]
  simp only [List.map_cons, List.sum_cons]
  have hs : (x.1.sample x.2).cases.toNat = x.1.nCases.toNat ∧
      (x.1.sample x.2).runs.toNat = x.1.nRuns.toNat := ⟨rfl, rfl⟩
  rw [hs.1, hs.2]
  omega

/-- **Folding the sources**: the sums wrap, or stop at the first that overflows. -/
theorem foldlM_add (checks : Bool) (l : List Weighed) (a : Acc) :
    l.foldlM (fun a x => a.add checks (x.1.sample x.2) (some x.1.contributorId)) a =
      if checks = true ∧ ¬ a.Room l then .error .add else .ok (l.foldl folded a) := by
  induction l generalizing a with
  | nil =>
    rw [if_neg (fun h => h.2 (room_nil a))]
    rfl
  | cons x l ih =>
    rw [List.foldlM_cons, List.foldl_cons]
    have hadd : a.add checks (x.1.sample x.2) (some x.1.contributorId) =
        if checks = true ∧ ¬ a.Fits (x.1.sample x.2) then .error .add else .ok (a.folded x) := by
      unfold add
      rw [addCounts_eq]
      split_ifs <;> rfl
    rw [hadd]
    by_cases hfits : checks = true ∧ ¬ a.Fits (x.1.sample x.2)
    · have hover : checks = true ∧ ¬ a.Room (x :: l) :=
        ⟨hfits.1, fun h => hfits.2 (room_cons.1 h).1⟩
      rw [if_pos hfits, if_pos hover]
      rfl
    · rw [if_neg hfits]
      refine (ih (a.folded x)).trans (if_congr ?_ rfl rfl)
      rw [room_cons]
      tauto

/-! ## Any order -/

/-- Two sources fold in either order. -/
theorem folded_right_comm {x y : Weighed} (hx : Canonical x.1.determinism)
    (hy : Canonical y.1.determinism) (a : Acc) : (a.folded x).folded y = (a.folded y).folded x := by
  have hsum : ∀ u v w : ℚ, u + v + w = u + w + v := add_right_comm
  have h64 : ∀ u v w : UInt64, u + v + w = u + w + v := by
    intro u v w
    rw [UInt64.add_assoc, UInt64.add_comm v, ← UInt64.add_assoc]
  have h32 : ∀ u v w : UInt32, u + v + w = u + w + v := by
    intro u v w
    rw [UInt32.add_assoc, UInt32.add_comm v, ← UInt32.add_assoc]
  have hset : ∀ {α : Type} [DecidableEq α] (u v : Option α) (s : Finset α),
      insertSome u (insertSome v s) = insertSome v (insertSome u s) := by
    intro α _ u v s
    exact Finset.union_left_comm ..
  have hmax : ∀ u v w : ℕ, max (max u v) w = max (max u w) v := by
    intro u v w
    omega
  apply Acc.ext
  case cases => exact h64 ..
  case runs => exact h32 ..
  case varCases =>
    simp only [folded, added, counted]
    split_ifs
    · exact h64 ..
    · rfl
    · rfl
    · rfl
  case p95Max => exact hmax ..
  case contributors => exact hset ..
  case judgeProviders => exact hset ..
  case rubricFps => exact hset ..
  case determinismLevels => exact hset ..
  case datasetVersions => exact hset ..
  case seen => rfl
  -- the first of the two seeds, or both weaken
  case determinism =>
    simp only [folded, added, CollectiveEntry.sample, if_true]
    split_ifs
    · exact weakest_right_comm hx hy _
    · exact weakest_comm hx hy
  case frozen =>
    simp only [folded, added, CollectiveEntry.sample, if_true]
    split_ifs
    · exact Coverage.fold_right_comm ..
    · exact Coverage.fold_comm ..
  case tested =>
    simp only [folded, added, CollectiveEntry.sample, if_true]
    split_ifs
    · exact Coverage.fold_right_comm ..
    · exact Coverage.fold_comm ..
  all_goals exact hsum ..

theorem foldl_folded_perm {l l' : List Weighed} (h : l.Perm l')
    (hl : ∀ x ∈ l, Canonical x.1.determinism) (a : Acc) : l.foldl folded a = l'.foldl folded a :=
  h.foldl_eq' (fun x hx y hy a => folded_right_comm (hl x hx) (hl y hy) a) a

/-! ## The sums -/

theorem foldl_cases (l : List Weighed) (a : Acc) : (l.foldl folded a).cases.toNat =
    (a.cases.toNat + (l.map fun x => x.1.nCases.toNat).sum) % 2 ^ 64 := by
  induction l generalizing a with
  | nil => exact (Nat.mod_eq_of_lt a.cases.toNat_lt).symm
  | cons x l ih =>
    have hcast : x.1.nCases.toUInt64.toNat = x.1.nCases.toNat := UInt32.toNat_toUInt64 _
    have hstep : (a.folded x).cases.toNat = (a.cases.toNat + x.1.nCases.toNat) % 2 ^ 64 := by
      rw [← hcast]
      exact UInt64.toNat_add ..
    rw [List.foldl_cons, ih, hstep, List.map_cons, List.sum_cons]
    omega

theorem foldl_runs (l : List Weighed) (a : Acc) : (l.foldl folded a).runs.toNat =
    (a.runs.toNat + (l.map fun x => x.1.nRuns.toNat).sum) % 2 ^ 32 := by
  induction l generalizing a with
  | nil => exact (Nat.mod_eq_of_lt a.runs.toNat_lt).symm
  | cons x l ih =>
    have hstep : (a.folded x).runs.toNat = (a.runs.toNat + x.1.nRuns.toNat) % 2 ^ 32 :=
      UInt32.toNat_add ..
    rw [List.foldl_cons, ih, hstep, List.map_cons, List.sum_cons]
    omega

/-- The contributors of the sources. -/
theorem foldl_contributors (l : List Weighed) (a : Acc) : (l.foldl folded a).contributors =
    a.contributors ∪ (l.map fun x => x.1.contributorId).toFinset := by
  induction l generalizing a with
  | nil => simp
  | cons x l ih =>
    have hstep : (a.folded x).contributors = insert x.1.contributorId a.contributors := by
      change insertSome (some x.1.contributorId) a.contributors = _
      unfold insertSome
      rw [Option.toFinset_some, Finset.insert_eq]
    rw [List.foldl_cons, ih, hstep, List.map_cons, List.toFinset_cons]
    grind

end Acc

/-! ## The samples of a bucket -/

theorem foldSamples_eq (checks : Bool) (l : List Weighed) :
    foldSamples checks l = if checks = true ∧ ¬ Acc.default.Room l then .error .add
      else .ok (l.foldl Acc.folded Acc.default) :=
  Acc.foldlM_add checks l Acc.default

theorem foldSamples_perm (checks : Bool) {l l' : List Weighed} (h : l.Perm l')
    (hl : ∀ x ∈ l, Canonical x.1.determinism) : foldSamples checks l = foldSamples checks l' := by
  rw [foldSamples_eq, foldSamples_eq, Acc.foldl_folded_perm h hl]
  exact if_congr (and_congr_right fun _ => not_congr (Acc.room_perm h)) rfl rfl

section

variable {checks : Bool} {es es' : List CollectiveEntry}

/-- What a bucket merges to, its counters wrapped. -/
def mergedOf (es : List CollectiveEntry) : MergeGroup :=
  { acc := (es.zip (weightsOf es)).foldl Acc.folded Acc.default
    maxSourceShare := if 0 < (weightsOf es).sum then
      (weightsOf es).foldl max 0 / (weightsOf es).sum else 0
    between := betweenSources (weightsOf es) (es.map CollectiveEntry.quality)
    window := evidenceWindow (es.map CollectiveEntry.receivedAt) }

/-- No checked counter overflows over a bucket. -/
def Countable (checks : Bool) (es : List CollectiveEntry) : Prop :=
  checks = true → Acc.default.Room (es.zip (weightsOf es))

theorem mergeBucket_eq_ok_iff {g : MergeGroup} :
    mergeBucket checks es = .ok g ↔ Countable checks es ∧ g = mergedOf es := by
  unfold mergeBucket
  rw [Traverse.bind_eq_ok_iff]
  simp only [foldSamples_eq, guard_eq_ok_iff, not_and, not_not]
  constructor
  · rintro ⟨acc, ⟨hroom, rfl⟩, hg⟩
    exact ⟨hroom, (Except.ok.inj hg).symm⟩
  · rintro ⟨hroom, rfl⟩
    exact ⟨_, ⟨hroom, rfl⟩, rfl⟩

/-- **A bucket merges to the same whatever the order of its entries.** -/
theorem mergeBucket_perm (h : es.Perm es') (hes : ∀ e ∈ es, Canonical e.determinism) :
    mergeBucket checks es = mergeBucket checks es' := by
  have hweights := weightsOf_perm h
  have hcanonical : ∀ x ∈ es.zip (weightsOf es), Canonical x.1.determinism :=
    fun x hx => hes x.1 (List.of_mem_zip hx).1
  unfold mergeBucket
  simp only [hweights.sum_eq, foldl_max_perm hweights, betweenSources_perm h,
    foldSamples_perm checks (zip_weights_perm h) hcanonical,
    evidenceWindow_perm (h.map CollectiveEntry.receivedAt)]

theorem mergedOf_perm (h : es.Perm es') (hes : ∀ e ∈ es, Canonical e.determinism) :
    mergedOf es = mergedOf es' := by
  have hunchecked : ∀ l : List CollectiveEntry, mergeBucket false l = .ok (mergedOf l) :=
    fun l => mergeBucket_eq_ok_iff.2 ⟨fun h => absurd h Bool.false_ne_true, rfl⟩
  have heq : mergeBucket false es = mergeBucket false es' := mergeBucket_perm h hes
  rw [hunchecked, hunchecked] at heq
  exact Except.ok.inj heq

theorem bucketKeys_perm (h : es.Perm es') : bucketKeys es = bucketKeys es' := by
  unfold bucketKeys
  rw [List.toFinset_eq_of_perm _ _ (h.map _)]

theorem mem_bucketKeys {k : Key} : k ∈ bucketKeys es ↔ ∃ e ∈ es, e.key = k := by
  unfold bucketKeys
  rw [Finset.mem_sort, List.mem_toFinset, List.mem_map]

theorem mem_bucket {k : Key} {e : CollectiveEntry} : e ∈ bucket es k ↔ e ∈ es ∧ e.key = k := by
  unfold bucket
  rw [List.mem_filter, decide_eq_true_eq]

theorem bucket_perm (h : es.Perm es') (k : Key) : (bucket es k).Perm (bucket es' k) :=
  h.filter _

theorem bucket_ne_nil {k : Key} (h : k ∈ bucketKeys es) : bucket es k ≠ [] := by
  rcases mem_bucketKeys.1 h with ⟨e, he, hk⟩
  exact List.ne_nil_of_mem (mem_bucket.2 ⟨he, hk⟩)

theorem rowAt_eq_ok_iff {sqrt : ℚ → ℚ} {floor : UInt32} {k : Key} {r : LeaderboardRow} :
    rowAt sqrt checks floor es k = .ok r ↔
      Countable checks (bucket es k) ∧ r = rowOf sqrt floor k (mergedOf (bucket es k)) := by
  unfold rowAt
  rw [Traverse.bind_eq_ok_iff]
  constructor
  · rintro ⟨g, hg, hr⟩
    rcases mergeBucket_eq_ok_iff.1 hg with ⟨hcount, rfl⟩
    exact ⟨hcount, (Except.ok.inj hr).symm⟩
  · rintro ⟨hcount, rfl⟩
    exact ⟨_, mergeBucket_eq_ok_iff.2 ⟨hcount, rfl⟩, rfl⟩

/-- **A leaderboard is its buckets, merged and sorted.** -/
theorem mergeLeaderboard_eq_ok_iff {sqrt : ℚ → ℚ} {floor : UInt32} {rows : List LeaderboardRow} :
    mergeLeaderboard sqrt checks floor es = .ok rows ↔
      (∀ k ∈ bucketKeys es, Countable checks (bucket es k)) ∧
        rows = sortByQuality
          ((bucketKeys es).map fun k => rowOf sqrt floor k (mergedOf (bucket es k))) := by
  unfold mergeLeaderboard
  rw [Traverse.bind_eq_ok_iff]
  constructor
  · rintro ⟨unsorted, hunsorted, hrows⟩
    rcases (Traverse.mapM_eq_map_iff fun k r => rowAt_eq_ok_iff).1 hunsorted with ⟨hcount, rfl⟩
    exact ⟨hcount, (Except.ok.inj hrows).symm⟩
  · rintro ⟨hcount, rfl⟩
    exact ⟨_, (Traverse.mapM_eq_map_iff fun k r => rowAt_eq_ok_iff).2 ⟨hcount, rfl⟩, rfl⟩

/-- **The leaderboard does not depend on the order of the entries.** -/
theorem mergeLeaderboard_perm (sqrt : ℚ → ℚ) (floor : UInt32) (h : es.Perm es')
    (hes : ∀ e ∈ es, Canonical e.determinism) :
    mergeLeaderboard sqrt checks floor es = mergeLeaderboard sqrt checks floor es' := by
  have hrow : ∀ k, rowAt sqrt checks floor es k = rowAt sqrt checks floor es' k := by
    intro k
    unfold rowAt
    rw [mergeBucket_perm (bucket_perm h k) fun e he => hes e (mem_bucket.1 he).1]
  unfold mergeLeaderboard
  rw [bucketKeys_perm h, Traverse.mapM_congr fun k _ => hrow k]

end

end LightTrack
