import LightTrack.Collective.Sanitize
import LightTrack.Collective.Fair

/-! # Folding one contributor's entries

After the clamps several entries of one contribution can share a bucket.  `foldEntries` adds them up,
in the order of first appearance; a bucket that appears once passes through untouched.

* `keys_foldEntries`, `mem_foldEntries` : one entry for each bucket, folded from the bucket's entries,
* `sanitised_finish` : what every entry of a bucket satisfies the folded one does, but for its case
  count.
-/

namespace LightTrack

/-- `Acc` of the fold: one bucket, with its first entry. -/
structure FoldAcc where
  first : CollectiveEntry
  n : ℕ
  w : ℚ
  qSum : ℚ
  pSum : ℚ
  cSum : ℚ
  q2Sum : ℚ
  allVarianceKnown : Bool
  p50W : ℚ
  p50Sum : ℚ
  p95 : Option ℕ
  nRuns : UInt32
  nCases : UInt32
  judges : Finset String
  rubrics : Finset String
  determinism : Option String
  frozen : Coverage
  significance : Coverage
  receivedAt : Time

/-- `u32::saturating_add` -/
def satAddU32 (a b : UInt32) : UInt32 := .ofNat (min (a.toNat + b.toNat) (2 ^ 32 - 1))

namespace FoldAcc

/-- `Acc::new` -/
def new (e : CollectiveEntry) : FoldAcc :=
  let w := e.cases
  { first := e
    n := 1
    w := w
    qSum := e.quality * w
    pSum := e.passRate * w
    cSum := e.avgCostUsd * w
    q2Sum := (e.qualityVariance.getD 0 + e.quality * e.quality) * w
    allVarianceKnown := e.qualityVariance.isSome
    p50W := amount e.p50LatencyMs fun _ => w
    p50Sum := amount e.p50LatencyMs fun v => v * w
    p95 := e.p95LatencyMs
    nRuns := e.nRuns
    nCases := e.nCases
    judges := insertSome e.judgeProvider ∅
    rubrics := insertSome e.rubricFingerprint ∅
    determinism := e.determinism
    frozen := e.frozenDataset
    significance := e.significanceTested
    receivedAt := e.receivedAt }

/-- `Acc::key` -/
def key (a : FoldAcc) : Key := a.first.key

/-- `Acc::push` -/
def push (a : FoldAcc) (e : CollectiveEntry) : FoldAcc :=
  let w := e.cases
  { first := a.first
    n := a.n + 1
    w := a.w + w
    qSum := a.qSum + e.quality * w
    pSum := a.pSum + e.passRate * w
    cSum := a.cSum + e.avgCostUsd * w
    q2Sum := a.q2Sum + (e.qualityVariance.getD 0 + e.quality * e.quality) * w
    allVarianceKnown := a.allVarianceKnown && e.qualityVariance.isSome
    p50W := a.p50W + amount e.p50LatencyMs fun _ => w
    p50Sum := a.p50Sum + amount e.p50LatencyMs fun v => v * w
    p95 :=
      match a.p95, e.p95LatencyMs with
      | some x, some y => some (max x y)
      | x, y => x.or y
    -- saturating: a sum that wrapped would reward a split claim
    nRuns := satAddU32 a.nRuns e.nRuns
    nCases := satAddU32 a.nCases e.nCases
    judges := insertSome e.judgeProvider a.judges
    rubrics := insertSome e.rubricFingerprint a.rubrics
    determinism := weakestDeterminism a.determinism e.determinism
    frozen := a.frozen.fold e.frozenDataset
    significance := a.significance.fold e.significanceTested
    receivedAt := max a.receivedAt e.receivedAt }

/-- The entry of a group of several. -/
def pooled (a : FoldAcc) : CollectiveEntry :=
  let w := max a.w 1
  let quality := a.qSum / w
  { a.first with
    quality := quality
    passRate := a.pSum / w
    avgCostUsd := bucketCost (a.cSum / w)
    p50LatencyMs := if 0 < a.p50W then some (roundAway (a.p50Sum / a.p50W)).toNat else none
    p95LatencyMs := a.p95
    nRuns := a.nRuns
    nCases := a.nCases
    qualityVariance :=
      if a.allVarianceKnown then some (max (a.q2Sum / w - quality * quality) 0) else none
    judgeProvider := collapse a.judges
    rubricFingerprint := collapse a.rubrics
    determinism := a.determinism
    frozenDataset := a.frozen
    significanceTested := a.significance
    receivedAt := a.receivedAt }

/-- `Acc::finish` -/
def finish (a : FoldAcc) : CollectiveEntry := if a.n = 1 then a.first else a.pooled

end FoldAcc

/-- An entry goes to the group of its bucket, if there is one. -/
def pushEntry (e : CollectiveEntry) : List FoldAcc → Option (List FoldAcc)
  | [] => none
  | g :: groups =>
    if g.key = e.key then some (g.push e :: groups) else (pushEntry e groups).map (g :: ·)

/-- The loop of `fold_entries`: the groups so far and how many entries were absorbed. -/
def foldStep (st : List FoldAcc × ℕ) (e : CollectiveEntry) : List FoldAcc × ℕ :=
  match pushEntry e st.1 with
  | some groups => (groups, st.2 + 1)
  | none => (st.1 ++ [.new e], st.2)

/-- `fold_entries` -/
def foldEntries (entries : List CollectiveEntry) : List CollectiveEntry × ℕ :=
  let st := entries.foldl foldStep ([], 0)
  (st.1.map FoldAcc.finish, st.2)

/-! ## One group for each bucket -/

/-- The group of a bucket, given its entries. -/
def groupOf (first : CollectiveEntry) (rest : List CollectiveEntry) : FoldAcc :=
  rest.foldl FoldAcc.push (.new first)

/-- What the fold's groups look like: the buckets of the entries so far in order of appearance, each
with its entries. -/
structure Grouped (seen : List CollectiveEntry) (st : List FoldAcc × ℕ) : Prop where
  keys : st.1.map FoldAcc.key = (seen.map CollectiveEntry.key).eraseDups
  nodup : (st.1.map FoldAcc.key).Nodup
  groups : ∀ g ∈ st.1, ∃ first rest, bucket seen g.key = first :: rest ∧ g = groupOf first rest
  absorbed : st.1.length + st.2 = seen.length

theorem key_push (a : FoldAcc) (e : CollectiveEntry) : (a.push e).key = a.key := rfl

theorem key_finish (a : FoldAcc) : a.finish.key = a.key := by
  unfold FoldAcc.finish
  split_ifs <;> rfl

theorem groupOf_append (first : CollectiveEntry) (rest : List CollectiveEntry) (e : CollectiveEntry) :
    groupOf first (rest ++ [e]) = (groupOf first rest).push e := by
  unfold groupOf
  rw [List.foldl_append]
  rfl

section Step

variable {seen : List CollectiveEntry} {e : CollectiveEntry} {groups groups' : List FoldAcc}
  {st : List FoldAcc × ℕ}

theorem pushEntry_eq_none (h : pushEntry e groups = none) : e.key ∉ groups.map FoldAcc.key := by
  induction groups with
  | nil => exact List.not_mem_nil
  | cons g groups ih =>
    unfold pushEntry at h
    split_ifs at h with hkey
    rw [Option.map_eq_none_iff] at h
    rw [List.map_cons, List.mem_cons, not_or]
    exact ⟨fun heq => hkey heq.symm, ih h⟩

/-- An absorbed entry changes the group of its bucket only. -/
theorem pushEntry_eq_some (h : pushEntry e groups = some groups') :
    ∃ l g r, groups = l ++ g :: r ∧ g.key = e.key ∧ groups' = l ++ g.push e :: r := by
  induction groups generalizing groups' with
  | nil => cases h
  | cons g groups ih =>
    unfold pushEntry at h
    split_ifs at h with hkey
    · exact ⟨[], g, groups, rfl, hkey, (Option.some.inj h).symm⟩
    · rcases Option.map_eq_some_iff.1 h with ⟨rest, hrest, rfl⟩
      rcases ih hrest with ⟨l, g', r, rfl, hkey', rfl⟩
      exact ⟨g :: l, g', r, rfl, hkey', rfl⟩

theorem bucket_append_of_ne {k : Key} (h : e.key ≠ k) : bucket (seen ++ [e]) k = bucket seen k := by
  unfold bucket
  rw [List.filter_append, List.filter_cons_of_neg (by simpa using h), List.filter_nil,
    List.append_nil]

theorem bucket_append_self : bucket (seen ++ [e]) e.key = bucket seen e.key ++ [e] := by
  unfold bucket
  rw [List.filter_append, List.filter_cons_of_pos (by simp), List.filter_nil]

theorem eraseDups_append_mem {ks : List Key} {k : Key} (h : k ∈ ks) :
    (ks ++ [k]).eraseDups = ks.eraseDups := by
  rw [List.eraseDups_append]
  have hrest : [k].removeAll ks = [] := by
    simp [List.removeAll, h]
  rw [hrest, List.eraseDups_nil, List.append_nil]

theorem eraseDups_append_new {ks : List Key} {k : Key} (h : k ∉ ks) :
    (ks ++ [k]).eraseDups = ks.eraseDups ++ [k] := by
  rw [List.eraseDups_append]
  have hrest : [k].removeAll ks = [k] := by
    simp [List.removeAll, h]
  rw [hrest]
  rfl

theorem Grouped.mem_keys (h : Grouped seen st) (k : Key) :
    k ∈ st.1.map FoldAcc.key ↔ k ∈ seen.map CollectiveEntry.key := by
  rw [h.keys, List.mem_eraseDups]

/-- The group of another bucket stays as it is. -/
theorem Grouped.other (h : Grouped seen st) {g : FoldAcc} (hg : g ∈ st.1) (hne : g.key ≠ e.key) :
    ∃ first rest, bucket (seen ++ [e]) g.key = first :: rest ∧ g = groupOf first rest := by
  rcases h.groups g hg with ⟨first, rest, hbucket, hgroup⟩
  refine ⟨first, rest, ?_, hgroup⟩
  rw [bucket_append_of_ne, hbucket]
  exact hne.symm

/-- An entry of a new bucket opens a group behind the others. -/
theorem Grouped.opens (h : Grouped seen st) (hnew : e.key ∉ st.1.map FoldAcc.key) :
    Grouped (seen ++ [e]) (st.1 ++ [.new e], st.2) := by
  have hfresh : e.key ∉ seen.map CollectiveEntry.key := fun hk => hnew ((h.mem_keys _).2 hk)
  refine ⟨?_, ?_, ?_, ?_⟩
  · rw [List.map_append, List.map_append, h.keys]
    exact (eraseDups_append_new hfresh).symm
  · rw [List.map_append]
    exact List.Nodup.append h.nodup (List.nodup_singleton _)
      (List.disjoint_singleton.2 hnew)
  · intro g hg
    rcases List.mem_append.1 hg with hg | hg
    · exact h.other hg fun heq => hnew (heq ▸ List.mem_map_of_mem hg)
    · rw [List.mem_singleton.1 hg]
      refine ⟨e, [], ?_, rfl⟩
      have hnil : bucket seen e.key = [] := by
        rw [List.eq_nil_iff_forall_not_mem]
        intro e' he'
        rcases mem_bucket.1 he' with ⟨hseen, hkey⟩
        exact hfresh (hkey ▸ List.mem_map_of_mem hseen)
      change bucket (seen ++ [e]) e.key = [e]
      rw [bucket_append_self, hnil, List.nil_append]
  · have habs := h.absorbed
    simp only [List.length_append, List.length_cons, List.length_nil]
    omega

/-- An entry of a bucket that has a group joins it. -/
theorem Grouped.joins {l r : List FoldAcc} {g : FoldAcc} (h : Grouped seen st)
    (hst : st.1 = l ++ g :: r) (hkey : g.key = e.key) :
    Grouped (seen ++ [e]) (l ++ g.push e :: r, st.2 + 1) := by
  have hkeys : (l ++ g.push e :: r).map FoldAcc.key = st.1.map FoldAcc.key := by
    rw [hst, List.map_append, List.map_append, List.map_cons, List.map_cons, key_push]
  have hnodup := h.nodup
  rw [hst, List.map_append, List.map_cons, List.nodup_middle, List.nodup_cons] at hnodup
  refine ⟨?_, ?_, ?_, ?_⟩
  · rw [hkeys, h.keys, List.map_append]
    refine (eraseDups_append_mem ((h.mem_keys e.key).1 ?_)).symm
    rw [hst, List.map_append, List.map_cons, hkey]
    exact List.mem_append_right _ (List.mem_cons_self ..)
  · rw [hkeys]
    exact h.nodup
  · -- the groups of other buckets stay as they are
    have hother : ∀ g' ∈ l ++ r, ∃ first rest,
        bucket (seen ++ [e]) g'.key = first :: rest ∧ g' = groupOf first rest := by
      intro g' hg'
      refine h.other ?_ ?_
      · rw [hst]
        rcases List.mem_append.1 hg' with h | h
        · exact List.mem_append_left _ h
        · exact List.mem_append_right _ (List.mem_cons_of_mem _ h)
      · intro heq
        apply hnodup.1
        rw [hkey, ← heq, ← List.map_append]
        exact List.mem_map_of_mem hg'
    intro g' hg'
    rcases List.mem_append.1 hg' with hg' | hg'
    · exact hother g' (List.mem_append_left _ hg')
    · rcases List.mem_cons.1 hg' with rfl | hg'
      · rcases h.groups g (hst ▸ List.mem_append_right _ (List.mem_cons_self ..)) with
          ⟨first, rest, hbucket, hgroup⟩
        refine ⟨first, rest ++ [e], ?_, ?_⟩
        · rw [key_push, hkey, bucket_append_self, ← hkey, hbucket, List.cons_append]
        · rw [groupOf_append, ← hgroup]
      · exact hother g' (List.mem_append_right _ hg')
  · have habs := h.absorbed
    rw [hst] at habs
    simp only [List.length_append, List.length_cons, List.length_nil] at habs ⊢
    omega

/-- One entry more: it joins its bucket's group, or opens one. -/
theorem grouped_step (h : Grouped seen st) : Grouped (seen ++ [e]) (foldStep st e) := by
  unfold foldStep
  rcases hpush : pushEntry e st.1 with - | groups'
  · exact h.opens (pushEntry_eq_none hpush)
  · rcases pushEntry_eq_some hpush with ⟨l, g, r, hst, hkey, rfl⟩
    exact h.joins hst hkey

theorem grouped_foldl (l : List CollectiveEntry) (h : Grouped seen st) :
    Grouped (seen ++ l) (l.foldl foldStep st) := by
  induction l generalizing seen st with
  | nil =>
    rw [List.append_nil]
    exact h
  | cons e l ih =>
    rw [List.foldl_cons, List.append_cons]
    exact ih (grouped_step h)

theorem grouped_foldEntries (entries : List CollectiveEntry) :
    Grouped entries (entries.foldl foldStep ([], 0)) := by
  have hinit : Grouped [] (([], 0) : List FoldAcc × ℕ) := by
    refine ⟨rfl, List.nodup_nil, ?_, rfl⟩
    intro g hg
    cases hg
  exact grouped_foldl entries hinit

end Step

/-! ## The folded entries -/

section Folded

variable {entries : List CollectiveEntry}

/-- **The folded entries are the buckets in order of first appearance.** -/
theorem keys_foldEntries : (foldEntries entries).1.map CollectiveEntry.key =
    (entries.map CollectiveEntry.key).eraseDups := by
  rw [← (grouped_foldEntries entries).keys]
  unfold foldEntries
  rw [List.map_map]
  exact List.map_congr_left fun g _ => key_finish g

theorem nodup_foldEntries : ((foldEntries entries).1.map CollectiveEntry.key).Nodup := by
  rw [keys_foldEntries, ← (grouped_foldEntries entries).keys]
  exact (grouped_foldEntries entries).nodup

/-- Every folded entry is its bucket, folded. -/
theorem mem_foldEntries {f : CollectiveEntry} (h : f ∈ (foldEntries entries).1) :
    ∃ first rest, bucket entries f.key = first :: rest ∧ f = (groupOf first rest).finish := by
  rcases List.mem_map.1 h with ⟨g, hg, rfl⟩
  rcases (grouped_foldEntries entries).groups g hg with ⟨first, rest, hbucket, hgroup⟩
  rw [key_finish]
  exact ⟨first, rest, hbucket, congrArg _ hgroup⟩

/-- Every entry is in a bucket, or was absorbed by one. -/
theorem length_foldEntries :
    (foldEntries entries).1.length + (foldEntries entries).2 = entries.length := by
  rw [← (grouped_foldEntries entries).absorbed]
  unfold foldEntries
  rw [List.length_map]

end Folded

/-! ## What a folded entry satisfies -/

section Finish

variable {first : CollectiveEntry} {rest : List CollectiveEntry}

theorem satAdd_toNat (a b : UInt32) :
    (satAddU32 a b).toNat = min (a.toNat + b.toNat) (2 ^ 32 - 1) := by
  unfold satAddU32
  rw [UInt32.toNat_ofNat', Nat.mod_eq_of_lt]
  omega

/-- The saturated sum of the counts. -/
theorem foldl_saturated {f : FoldAcc → UInt32} {g : CollectiveEntry → UInt32}
    (h : ∀ a e, f (a.push e) = satAddU32 (f a) (g e)) (l : List CollectiveEntry) (a : FoldAcc) :
    (f (l.foldl FoldAcc.push a)).toNat =
      min ((f a).toNat + (l.map fun e => (g e).toNat).sum) (2 ^ 32 - 1) := by
  induction l generalizing a with
  | nil =>
    have hlt := (f a).toNat_lt
    rw [List.foldl_nil, List.map_nil, List.sum_nil]
    omega
  | cons e l ih =>
    rw [List.foldl_cons, ih, h, satAdd_toNat, List.map_cons, List.sum_cons]
    omega

theorem groupOf_nCases : (groupOf first rest).nCases.toNat =
    min (totalCases (first :: rest)) (2 ^ 32 - 1) := by
  unfold groupOf
  rw [foldl_saturated (g := CollectiveEntry.nCases) fun _ _ => rfl]
  rfl

theorem groupOf_nRuns : (groupOf first rest).nRuns.toNat =
    min (totalRuns (first :: rest)) (2 ^ 32 - 1) := by
  unfold groupOf
  rw [foldl_saturated (g := CollectiveEntry.nRuns) fun _ _ => rfl]
  rfl

theorem groupOf_n : (groupOf first rest).n = rest.length + 1 := by
  have hcount : ∀ (l : List CollectiveEntry) (a : FoldAcc),
      (l.foldl FoldAcc.push a).n = a.n + l.length := by
    intro l
    induction l with
    | nil => exact fun a => rfl
    | cons e l ih =>
      intro a
      rw [List.foldl_cons, ih, List.length_cons]
      change a.n + 1 + l.length = a.n + (l.length + 1)
      omega
  unfold groupOf
  rw [hcount, add_comm]
  rfl

theorem first_groupOf : (groupOf first rest).first = first := by
  have hfirst : ∀ (l : List CollectiveEntry) (a : FoldAcc),
      (l.foldl FoldAcc.push a).first = a.first := by
    intro l
    induction l with
    | nil => exact fun a => rfl
    | cons e l ih => exact fun a => ih (a.push e)
  exact hfirst rest _

/-- The sum a group keeps of a figure. -/
theorem groupOf_sum {f : FoldAcc → ℚ} {g : CollectiveEntry → ℚ}
    (hnew : ∀ e, f (.new e) = g e) (hpush : ∀ a e, f (a.push e) = f a + g e) :
    f (groupOf first rest) = ((first :: rest).map g).sum := by
  unfold groupOf
  rw [Group.foldl_additive hpush, hnew, List.map_cons, List.sum_cons]

/-- A case-weighted mean lies where the figures do. -/
theorem groupMean_bounds {f : CollectiveEntry → ℚ} {a b : ℚ} {es : List CollectiveEntry}
    (hne : es ≠ []) (hcases : ∀ e ∈ es, 1 ≤ e.cases) (h : ∀ e ∈ es, a ≤ f e ∧ f e ≤ b) :
    a ≤ (es.map fun e => f e * e.cases).sum / max (es.map CollectiveEntry.cases).sum 1 ∧
      (es.map fun e => f e * e.cases).sum / max (es.map CollectiveEntry.cases).sum 1 ≤ b := by
  rcases List.exists_mem_of_ne_nil es hne with ⟨e₀, he₀⟩
  have hnonneg : ∀ c ∈ es.map CollectiveEntry.cases, 0 ≤ c := nonneg_of_mem_cases
  have hone : 1 ≤ (es.map CollectiveEntry.cases).sum :=
    (hcases e₀ he₀).trans (List.single_le_sum hnonneg _ (List.mem_map_of_mem he₀))
  have hpairs : (es.map fun e => f e * e.cases).sum / (es.map CollectiveEntry.cases).sum =
      Share.mean (es.map fun e => (e.cases, f e)) := by
    unfold Share.mean
    rw [List.map_map, List.map_map]
    rfl
  have hsum : ((es.map fun e => (e.cases, f e)).map Prod.fst).sum =
      (es.map CollectiveEntry.cases).sum := by
    rw [List.map_map]
    rfl
  have hweights : ∀ p ∈ es.map fun e => (e.cases, f e), 0 ≤ p.1 := by
    intro p hp
    rcases List.mem_map.1 hp with ⟨e, -, rfl⟩
    exact e.cases_nonneg
  have hpos : 0 < ((es.map fun e => (e.cases, f e)).map Prod.fst).sum := by
    rw [hsum]
    exact zero_lt_one.trans_le hone
  rw [max_eq_left hone, hpairs]
  constructor
  · apply Share.le_mean hweights hpos
    intro p hp
    rcases List.mem_map.1 hp with ⟨e, he, rfl⟩
    exact (h e he).1
  · apply Share.mean_le hweights hpos
    intro p hp
    rcases List.mem_map.1 hp with ⟨e, he, rfl⟩
    exact (h e he).2

theorem canonical_weakest {a b : Option String} (ha : Canonical a) (hb : Canonical b) :
    Canonical (weakestDeterminism a b) := by
  intro s hs
  rcases a with - | a
  · cases hs
  · rcases b with - | b
    · cases hs
    · simp only [weakestDeterminism, Option.mem_some_iff] at hs
      rw [← hs]
      split_ifs
      · exact ha a rfl
      · exact hb b rfl

theorem canonical_groupOf (h : ∀ e ∈ first :: rest, Canonical e.determinism) :
    Canonical (groupOf first rest).determinism := by
  have hfold : ∀ (l : List CollectiveEntry) (a : FoldAcc), Canonical a.determinism →
      (∀ e ∈ l, Canonical e.determinism) → Canonical (l.foldl FoldAcc.push a).determinism := by
    intro l
    induction l with
    | nil => exact fun a ha _ => ha
    | cons e l ih =>
      intro a ha hl
      exact ih (a.push e) (canonical_weakest ha (hl e (List.mem_cons_self ..)))
        fun e' he' => hl e' (List.mem_cons_of_mem _ he')
  exact hfold rest _ (h first (List.mem_cons_self ..)) fun e he => h e (List.mem_cons_of_mem _ he)

/-- The case count of a folded entry is the sum, saturated. -/
theorem finish_nCases : (groupOf first rest).finish.nCases.toNat =
    min (totalCases (first :: rest)) (2 ^ 32 - 1) := by
  rw [← groupOf_nCases]
  unfold FoldAcc.finish
  by_cases hn : (groupOf first rest).n = 1
  · rw [if_pos hn, first_groupOf]
    rw [groupOf_n, Nat.add_eq_right, List.length_eq_zero_iff] at hn
    rw [hn]
    rfl
  · rw [if_neg hn]
    rfl

/-- The figures of a pooled entry lie where those of its bucket do. -/
theorem pooled_figures (hcases : ∀ e ∈ first :: rest, 1 ≤ e.cases) {f : CollectiveEntry → ℚ}
    {s : FoldAcc → ℚ} {a b : ℚ} (hnew : ∀ e, s (.new e) = f e * e.cases)
    (hpush : ∀ g e, s (g.push e) = s g + f e * e.cases)
    (h : ∀ e ∈ first :: rest, a ≤ f e ∧ f e ≤ b) :
    a ≤ s (groupOf first rest) / max (groupOf first rest).w 1 ∧
      s (groupOf first rest) / max (groupOf first rest).w 1 ≤ b := by
  have hw : (groupOf first rest).w = ((first :: rest).map CollectiveEntry.cases).sum :=
    groupOf_sum (fun _ => rfl) fun _ _ => rfl
  rw [hw, groupOf_sum hnew hpush]
  exact groupMean_bounds (List.cons_ne_nil _ _) hcases h

/-- **What every entry of a bucket satisfies the folded one does.** -/
theorem sanitised_finish (h : ∀ e ∈ first :: rest, e.Sanitised)
    (hcost : ∀ e ∈ first :: rest, e.avgCostUsd ≤ MAX_COST_PER_CASE_USD) :
    (groupOf first rest).finish.Sanitised ∧
      (groupOf first rest).finish.avgCostUsd ≤ MAX_COST_PER_CASE_USD := by
  by_cases hn : (groupOf first rest).n = 1
  · -- a bucket of one entry is reported as it came
    have hfinish : (groupOf first rest).finish = first := (if_pos hn).trans first_groupOf
    rw [hfinish]
    exact ⟨h first (List.mem_cons_self ..), hcost first (List.mem_cons_self ..)⟩
  · have hfinish : (groupOf first rest).finish = (groupOf first rest).pooled := if_neg hn
    have hcases : ∀ e ∈ first :: rest, 1 ≤ e.cases := by
      intro e he
      have hpos := (h e he).runs.trans (h e he).runs_le
      unfold CollectiveEntry.cases
      exact_mod_cast hpos
    have hruns : totalRuns (first :: rest) ≤ totalCases (first :: rest) :=
      List.sum_le_sum fun e he => (h e he).runs_le
    -- the first entry has a run
    have hone : 1 ≤ totalRuns (first :: rest) := by
      have hfirst := (h first (List.mem_cons_self ..)).runs
      unfold totalRuns
      rw [List.map_cons, List.sum_cons]
      omega
    have hmean := pooled_figures hcases (f := CollectiveEntry.avgCostUsd) (s := FoldAcc.cSum)
      (fun _ => rfl) (fun _ _ => rfl) fun e he => ⟨(h e he).cost, hcost e he⟩
    rw [hfinish]
    refine ⟨⟨?_, ?_, ?_, ?_, (bucketCost_bounds hmean.2).1, ?_, ?_⟩, (bucketCost_bounds hmean.2).2⟩
    · change 1 ≤ (groupOf first rest).nRuns.toNat
      rw [groupOf_nRuns]
      omega
    · change (groupOf first rest).nRuns.toNat ≤ (groupOf first rest).nCases.toNat
      rw [groupOf_nRuns, groupOf_nCases]
      omega
    · exact pooled_figures hcases (s := FoldAcc.qSum) (fun _ => rfl) (fun _ _ => rfl)
        fun e he => (h e he).quality
    · exact pooled_figures hcases (s := FoldAcc.pSum) (fun _ => rfl) (fun _ _ => rfl)
        fun e he => (h e he).passRate
    · intro v hv
      unfold FoldAcc.pooled at hv
      rcases hvar : (groupOf first rest).allVarianceKnown with - | -
      · simp only [hvar] at hv
        cases hv
      · simp only [hvar, if_true, Option.mem_some_iff] at hv
        rw [← hv]
        exact le_max_right _ _
    · exact canonical_groupOf fun e he => (h e he).determinism

end Finish

end LightTrack
