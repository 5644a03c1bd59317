import LightTrack.Collective.Accumulate
import LightTrack.Collective.DigestText
import LightTrack.Lib.OrdMap

/-! # Building a digest

`buildDigestCounted` takes the runs of an instance into one accumulator for each
`(provider, model, task_type)`, publishes an entry of each accumulator with enough cases, and counts
the others.

* `groupsOf_foldlM` : the accumulators are those of the runs of each key,
* `digestGroups_ok` : and no counter overflows while the cases of every key fit 32 bits,
* `digest_suppresses_iff` : so the digest is exact just if they do,
* `digest_counts_wrap` : a group whose cases do not.
-/

namespace LightTrack

/-! ## Definitions -/

/-- `Coverage::of` -/
def Coverage.of : Option Bool → Coverage
  | some true => all
  | some false => none
  | _ => unknown

/-- `RunStat` -/
structure RunStat where
  provider : String
  model : String
  taskType : String
  quality : ℚ
  passRate : ℚ
  costPerCaseUsd : ℚ
  nCases : UInt32
  p50LatencyMs : Option ℕ
  p95LatencyMs : Option ℕ
  judgeProvider : Option String
  rubricFingerprint : Option String
  determinism : Option String
  datasetFrozen : Option Bool
  datasetVersion : Option UInt32
  significanceTested : Option Bool

namespace RunStat

/-- The group of a run. -/
def key (s : RunStat) : Key := keyOf s.provider s.model s.taskType

/-- The sample of a run: an instance pools its own runs, so the weight is the cases. -/
def sample (s : RunStat) : Sample :=
  { weight := s.nCases.toNat, quality := s.quality, passRate := s.passRate
    cost := s.costPerCaseUsd, cases := s.nCases, p50 := s.p50LatencyMs, p95 := s.p95LatencyMs
    runs := 1, variance := none, judgeProvider := s.judgeProvider
    rubricFingerprint := s.rubricFingerprint, determinism := s.determinism
    frozen := .of s.datasetFrozen, tested := .of s.significanceTested
    datasetVersion := s.datasetVersion }

end RunStat

namespace Acc

/-- `Acc::run_variance` -/
def runVariance (a : Acc) : Option ℚ :=
  if a.runs < 2 ∨ a.w ≤ 0 then none
  else
    let mean := a.qW / a.w
    some (max (a.qW2 / a.w - mean * mean) 0)

/-- `Acc::frozen_claim`: runs of two versions are not of one dataset. -/
def frozenClaim (a : Acc) : Coverage :=
  if a.frozen = .all ∧ 1 < a.datasetVersions.card then .mixed else a.frozen

end Acc

/-- The entry of a group. -/
def digestEntry (group : Key × Acc) : ModelDigestEntry :=
  let k := group.1
  let a := group.2
  { provider := (ofLex k).1
    model := (ofLex (ofLex k).2).1
    taskType := (ofLex (ofLex k).2).2
    quality := some (r3 a.quality)
    passRate := some (r3 a.passRate)
    avgCostUsd := some (bucketCost a.cost)
    p50LatencyMs := a.p50
    p95LatencyMs := a.p95
    nRuns := a.runs
    -- `a.cases as u32`
    nCases := a.cases.toUInt32
    qualityVariance := a.runVariance.map fun v => some (r6 v)
    judgeProvider := collapse a.judgeProviders
    rubricFingerprint := collapse a.rubricFps
    determinism := a.determinism
    frozenDataset := a.frozenClaim
    significanceTested := a.tested }

/-- `sort_by_quality`, of the entries of a digest. -/
def sortEntries (entries : List ModelDigestEntry) : List ModelDigestEntry :=
  entries.mergeSort fun a b =>
    let qa := a.quality.getD 0
    let qb := b.quality.getD 0
    decide (qb < qa ∨ qb = qa ∧
      (a.provider < b.provider ∨ a.provider = b.provider ∧ a.model ≤ b.model))

section

variable (checks : Bool)

/-- One run, taken into its group; a run without cases is passed over. -/
def digestStep (groups : OrdMap Key Acc) (s : RunStat) : Except Overflow (OrdMap Key Acc) :=
  if s.nCases = 0 then .ok groups
  else do
    let a ← ((groups.get s.key).getD Acc.default).add checks s.sample none
    pure (groups.insert s.key a)

/-- The groups of the runs. -/
def digestGroups (stats : List RunStat) : Except Overflow (OrdMap Key Acc) :=
  stats.foldlM (digestStep checks) OrdMap.empty

/-- A group has too few cases to be published. -/
def thin (minCases : UInt32) (group : Key × Acc) : Bool := group.2.cases < minCases.toUInt64

/-- `build_digest_counted` -/
def buildDigestCounted (stats : List RunStat) (minCases : UInt32) :
    Except Overflow (List ModelDigestEntry × UInt32) := do
  let groups ← digestGroups checks stats
  let withheld := groups.entries.filter (thin minCases)
  let kept := groups.entries.filter fun g => !thin minCases g
  pure (sortEntries (kept.map digestEntry), .ofNat withheld.length)

end

/-! ## What a digest promises -/

/-- The runs of a key that have a case. -/
def runsOf (stats : List RunStat) (k : Key) : List RunStat :=
  stats.filter fun s => s.nCases ≠ 0 ∧ s.key = k

/-- The cases of a key. -/
def casesOf (stats : List RunStat) (k : Key) : ℕ := ((runsOf stats k).map (·.nCases.toNat)).sum

/-- The keys with a case. -/
def localGroups (stats : List RunStat) : Finset Key :=
  ((stats.filter fun s => s.nCases ≠ 0).map RunStat.key).toFinset

/-- The groups with too few cases. -/
def thinGroups (stats : List RunStat) (minCases : UInt32) : Finset Key :=
  (localGroups stats).filter fun k => casesOf stats k < minCases.toNat

/-- A digest publishes the groups with enough cases, each once and with its cases, and says how many
groups it withheld. -/
structure Suppresses (stats : List RunStat) (minCases : UInt32)
    (out : List ModelDigestEntry × UInt32) : Prop where
  emitted : ∀ k, k ∈ out.1.map ModelDigestEntry.key ↔
    k ∈ localGroups stats ∧ minCases.toNat ≤ casesOf stats k
  once : (out.1.map ModelDigestEntry.key).Nodup
  exact : ∀ e ∈ out.1, e.nCases.toNat = casesOf stats e.key
  backed : ∀ e ∈ out.1, minCases.toNat ≤ casesOf stats e.key
  withheld : out.2.toNat = (thinGroups stats minCases).card

/-- The cases of every key fit a published count, and so does the number of groups withheld. -/
def CasesFit (stats : List RunStat) (minCases : UInt32) : Prop :=
  (∀ k, casesOf stats k < 2 ^ 32) ∧ (thinGroups stats minCases).card < 2 ^ 32

/-! ## The runs of a key -/

section Runs

variable {stats seen : List RunStat} {s : RunStat} {k : Key}

theorem mem_runsOf : s ∈ runsOf stats k ↔ s ∈ stats ∧ s.nCases ≠ 0 ∧ s.key = k := by
  unfold runsOf
  rw [List.mem_filter, decide_eq_true_iff]

theorem runsOf_append : runsOf (seen ++ stats) k = runsOf seen k ++ runsOf stats k :=
  List.filter_append ..

theorem runsOf_own (hcases : s.nCases ≠ 0) :
    runsOf (seen ++ [s]) s.key = runsOf seen s.key ++ [s] := by
  rw [runsOf_append]
  unfold runsOf
  rw [List.filter_cons_of_pos (by simpa using hcases), List.filter_nil]

theorem runsOf_other (h : s.nCases = 0 ∨ s.key ≠ k) : runsOf (seen ++ [s]) k = runsOf seen k := by
  rw [runsOf_append]
  unfold runsOf
  rw [List.filter_cons_of_neg, List.filter_nil, List.append_nil]
  rw [decide_eq_true_iff]
  rintro ⟨hcases, hkey⟩
  exact h.elim hcases (· hkey)

theorem casesOf_append : casesOf (seen ++ stats) k = casesOf seen k + casesOf stats k := by
  unfold casesOf
  rw [runsOf_append, List.map_append, List.sum_append]

theorem casesOf_own (hcases : s.nCases ≠ 0) :
    casesOf (seen ++ [s]) s.key = casesOf seen s.key + s.nCases.toNat := by
  unfold casesOf
  rw [runsOf_own hcases, List.map_append, List.sum_append, List.map_singleton, List.sum_singleton]

theorem mem_localGroups : k ∈ localGroups stats ↔ runsOf stats k ≠ [] := by
  have hruns : (∃ s, s ∈ runsOf stats k) ↔ runsOf stats k ≠ [] :=
    ⟨fun ⟨_, hs⟩ => List.ne_nil_of_mem hs, List.exists_mem_of_ne_nil _⟩
  unfold localGroups
  rw [← hruns, List.mem_toFinset, List.mem_map]
  refine exists_congr fun s => ?_
  rw [List.mem_filter, mem_runsOf, decide_eq_true_iff, and_assoc]

/-- A key with no run has no case. -/
theorem casesOf_eq_zero (h : k ∉ localGroups stats) : casesOf stats k = 0 := by
  rw [mem_localGroups, not_not] at h
  unfold casesOf
  rw [h]
  rfl

/-- Every run of a key brings a case. -/
theorem length_runsOf_le : (runsOf stats k).length ≤ casesOf stats k := by
  have hone : ∀ n ∈ (runsOf stats k).map (·.nCases.toNat), 1 ≤ n := by
    intro n hn
    rcases List.mem_map.1 hn with ⟨s, hs, rfl⟩
    have hne : s.nCases.toNat ≠ 0 := fun h => (mem_runsOf.1 hs).2.1 (UInt32.toNat_inj.1 h)
    exact Nat.one_le_iff_ne_zero.2 hne
  have hlen := List.length_le_sum_of_one_le _ hone
  rwa [List.length_map] at hlen

end Runs

/-! ## The accumulator of a key -/

namespace Acc

/-- The accumulator after a run, its counters wrapped. -/
def grown (a : Acc) (s : RunStat) : Acc := a.added s.sample none (a.counted s.sample)

/-- The accumulator of the runs of a key. -/
def ofRuns (rs : List RunStat) : Acc := rs.foldl grown Acc.default

theorem add_run (checks : Bool) (a : Acc) (s : RunStat) : a.add checks s.sample none =
    if checks = true ∧ ¬ a.Fits s.sample then .error .add else .ok (a.grown s) := by
  unfold add
  rw [addCounts_eq]
  split_ifs <;> rfl

theorem ofRuns_append (rs : List RunStat) (s : RunStat) :
    ofRuns (rs ++ [s]) = (ofRuns rs).grown s := by
  unfold ofRuns
  rw [List.foldl_append]
  rfl

/-- The counters of the runs of a key whose cases fit. -/
theorem counters_ofRuns {rs : List RunStat} (hlen : rs.length ≤ (rs.map (·.nCases.toNat)).sum)
    (hfit : (rs.map (·.nCases.toNat)).sum < 2 ^ 32) :
    (ofRuns rs).cases.toNat = (rs.map (·.nCases.toNat)).sum ∧
      (ofRuns rs).runs.toNat = rs.length := by
  -- modulo the widths of the counters this holds of all runs
  have hmod : (ofRuns rs).cases.toNat = (rs.map (·.nCases.toNat)).sum % 2 ^ 64 ∧
      (ofRuns rs).runs.toNat = rs.length % 2 ^ 32 := by
    clear hlen hfit
    induction rs using List.reverseRecOn with
    | nil => exact ⟨rfl, rfl⟩
    | append_singleton rs s ih =>
      have hcast : s.nCases.toUInt64.toNat = s.nCases.toNat := UInt32.toNat_toUInt64 _
      have hcases : ((ofRuns rs).grown s).cases.toNat =
          ((ofRuns rs).cases.toNat + s.nCases.toNat) % 2 ^ 64 := by
        rw [← hcast]
        exact UInt64.toNat_add ..
      have hruns : ((ofRuns rs).grown s).runs.toNat = ((ofRuns rs).runs.toNat + 1) % 2 ^ 32 :=
        UInt32.toNat_add ..
      rw [ofRuns_append, hcases, hruns, ih.1, ih.2, List.map_append, List.sum_append,
        List.length_append, List.map_singleton, List.sum_singleton, List.length_singleton]
      exact ⟨Nat.mod_add_mod .., Nat.mod_add_mod ..⟩
  rw [hmod.1, hmod.2]
  constructor
  · exact Nat.mod_eq_of_lt (by omega)
  · exact Nat.mod_eq_of_lt (by omega)

end Acc

/-! ## The groups -/

section Groups

variable {checks : Bool} {stats seen : List RunStat} {s : RunStat} {m m' : OrdMap Key Acc}

/-- The accumulator of a key, if it has runs. -/
def groupAt (stats : List RunStat) (k : Key) : Option Acc :=
  if runsOf stats k = [] then none else some (Acc.ofRuns (runsOf stats k))

/-- The map holds the accumulators of the runs. -/
def GroupsOf (stats : List RunStat) (m : OrdMap Key Acc) : Prop := ∀ k, m.get k = groupAt stats k

theorem groupAt_getD (stats : List RunStat) (k : Key) :
    (groupAt stats k).getD Acc.default = Acc.ofRuns (runsOf stats k) := by
  unfold groupAt
  split_ifs with h
  · rw [h]
    rfl
  · rfl

/-- What a step does to the groups of the runs so far. -/
theorem digestStep_eq (h : GroupsOf seen m) : digestStep checks m s =
    if s.nCases = 0 then .ok m
    else if checks = true ∧ ¬ (Acc.ofRuns (runsOf seen s.key)).Fits s.sample then .error .add
    else .ok (m.insert s.key (Acc.ofRuns (runsOf (seen ++ [s]) s.key))) := by
  unfold digestStep
  by_cases hcases : s.nCases = 0
  · rw [if_pos hcases, if_pos hcases]
  · rw [if_neg hcases, if_neg hcases, h, groupAt_getD, Acc.add_run, runsOf_own hcases,
      Acc.ofRuns_append]
    split_ifs <;> rfl

/-- A step keeps the map that of the runs. -/
theorem groupsOf_step (h : GroupsOf seen m) (hstep : digestStep checks m s = .ok m') :
    GroupsOf (seen ++ [s]) m' := by
  intro k
  rw [digestStep_eq h] at hstep
  by_cases hcases : s.nCases = 0
  · rw [if_pos hcases] at hstep
    rw [← Except.ok.inj hstep, h]
    unfold groupAt
    rw [runsOf_other (.inl hcases)]
  · rw [if_neg hcases, guard_eq_ok_iff] at hstep
    rw [hstep.2, OrdMap.get_insert]
    by_cases hk : k = s.key
    · have hne : runsOf (seen ++ [s]) s.key ≠ [] := by
        rw [runsOf_own hcases]
        exact List.append_ne_nil_of_right_ne_nil _ (List.cons_ne_nil _ _)
      rw [if_pos hk, hk]
      unfold groupAt
      rw [if_neg hne]
    · rw [if_neg hk, h]
      unfold groupAt
      rw [runsOf_other (.inr (Ne.symm hk))]

/-- A run fits the accumulator of its key while the cases of the key fit 32 bits. -/
theorem fits_of_lt (hcases : s.nCases ≠ 0) (hfit : casesOf (seen ++ [s]) s.key < 2 ^ 32) :
    (Acc.ofRuns (runsOf seen s.key)).Fits s.sample := by
  have hlen : (runsOf (seen ++ [s]) s.key).length ≤ casesOf (seen ++ [s]) s.key :=
    length_runsOf_le
  have hseen : (runsOf seen s.key).length ≤ casesOf seen s.key := length_runsOf_le
  rw [runsOf_own hcases, List.length_append, List.length_singleton] at hlen
  rw [casesOf_own hcases] at hlen hfit
  rcases Acc.counters_ofRuns hseen
    (lt_of_le_of_lt (Nat.le_add_right _ _) hfit) with ⟨hsum, hruns⟩
  have hvar := (Acc.ofRuns (runsOf seen s.key)).varCases.toNat_lt
  have hone : s.sample.runs.toNat = 1 := rfl
  have hown : s.sample.cases.toNat = s.nCases.toNat := rfl
  have hnone : Acc.varCasesOf s.sample = 0 := rfl
  have hdef : casesOf seen s.key = ((runsOf seen s.key).map (·.nCases.toNat)).sum := rfl
  unfold Acc.Fits
  rw [hsum, hruns, hone, hown, hnone, ← hdef]
  omega

theorem exists_digestStep (h : GroupsOf seen m) (hfit : casesOf (seen ++ [s]) s.key < 2 ^ 32) :
    ∃ m', digestStep checks m s = .ok m' := by
  rw [digestStep_eq h]
  by_cases hcases : s.nCases = 0
  · rw [if_pos hcases]
    exact ⟨m, rfl⟩
  · rw [if_neg hcases, if_neg fun hover => hover.2 (fits_of_lt hcases hfit)]
    exact ⟨_, rfl⟩

/-- **The groups are those of the runs.** -/
theorem groupsOf_foldlM (h : GroupsOf seen m) (hrun : stats.foldlM (digestStep checks) m = .ok m') :
    GroupsOf (seen ++ stats) m' := by
  induction stats generalizing seen m with
  | nil =>
    rw [List.append_nil, ← Except.ok.inj hrun]
    exact h
  | cons s stats ih =>
    rw [List.foldlM_cons, Traverse.bind_eq_ok_iff] at hrun
    rcases hrun with ⟨next, hstep, hrest⟩
    rw [List.append_cons]
    exact ih (groupsOf_step h hstep) hrest

/-- **No counter overflows** while the cases of every key fit 32 bits. -/
theorem exists_foldlM (h : GroupsOf seen m) (hfit : ∀ k, casesOf (seen ++ stats) k < 2 ^ 32) :
    ∃ m', stats.foldlM (digestStep checks) m = .ok m' := by
  induction stats generalizing seen m with
  | nil => exact ⟨m, rfl⟩
  | cons s stats ih =>
    have hnext : ∀ k, casesOf ((seen ++ [s]) ++ stats) k < 2 ^ 32 := by
      intro k
      rw [← List.append_cons]
      exact hfit k
    -- the cases so far are no more than the cases in all
    have hprefix : casesOf (seen ++ [s]) s.key < 2 ^ 32 := by
      have hlt := hnext s.key
      rw [casesOf_append] at hlt
      exact lt_of_le_of_lt (Nat.le_add_right _ _) hlt
    rcases exists_digestStep h hprefix with ⟨next, hstep⟩
    rcases ih (groupsOf_step h hstep) hnext with ⟨m', hrest⟩
    refine ⟨m', ?_⟩
    rw [List.foldlM_cons, Traverse.bind_eq_ok_iff]
    exact ⟨next, hstep, hrest⟩

theorem groupsOf_empty : GroupsOf [] OrdMap.empty := fun _ => rfl

theorem digestGroups_ok (hfit : ∀ k, casesOf stats k < 2 ^ 32) :
    ∃ m, digestGroups checks stats = .ok m ∧ GroupsOf stats m := by
  have hfold : ∃ m, stats.foldlM (digestStep checks) OrdMap.empty = .ok m :=
    exists_foldlM groupsOf_empty hfit
  rcases hfold with ⟨m, hm⟩
  exact ⟨m, hm, groupsOf_foldlM groupsOf_empty hm⟩

/-- The entries of the map: a key with its accumulator. -/
theorem mem_entries (h : GroupsOf stats m) {g : Key × Acc} : g ∈ m.entries ↔
    g.1 ∈ localGroups stats ∧ g.2 = Acc.ofRuns (runsOf stats g.1) := by
  rw [← OrdMap.get_eq_some_iff (k := g.1) (v := g.2), h, mem_localGroups]
  unfold groupAt
  split_ifs with hnil
  · simp [hnil]
  · rw [Option.some_inj, eq_comm]
    exact (and_iff_right hnil).symm

end Groups

/-! ## The digest -/

section Digest

variable {checks : Bool} {stats : List RunStat} {minCases : UInt32} {m : OrdMap Key Acc}
  {g : Key × Acc}

/-- The accumulator of a key counts its cases. -/
theorem cases_of_mem (hm : GroupsOf stats m) (hfit : ∀ k, casesOf stats k < 2 ^ 32)
    (hg : g ∈ m.entries) : g.2.cases.toNat = casesOf stats g.1 := by
  rw [((mem_entries hm).1 hg).2]
  exact (Acc.counters_ofRuns length_runsOf_le (hfit g.1)).1

theorem nCases_digestEntry (hm : GroupsOf stats m) (hfit : ∀ k, casesOf stats k < 2 ^ 32)
    (hg : g ∈ m.entries) : (digestEntry g).nCases.toNat = casesOf stats g.1 := by
  have hcast : (digestEntry g).nCases.toNat = g.2.cases.toNat % 2 ^ 32 := UInt64.toNat_toUInt32 _
  rw [hcast, cases_of_mem hm hfit hg, Nat.mod_eq_of_lt (hfit g.1)]

theorem thin_iff (hm : GroupsOf stats m) (hfit : ∀ k, casesOf stats k < 2 ^ 32)
    (hg : g ∈ m.entries) : thin minCases g = true ↔ casesOf stats g.1 < minCases.toNat := by
  have hcast : minCases.toUInt64.toNat = minCases.toNat := UInt32.toNat_toUInt64 _
  unfold thin
  rw [decide_eq_true_iff, UInt64.lt_iff_toNat_lt, cases_of_mem hm hfit hg, hcast]

/-- The groups with enough cases. -/
theorem mem_kept (hm : GroupsOf stats m) (hfit : ∀ k, casesOf stats k < 2 ^ 32) (k : Key) :
    k ∈ (m.entries.filter fun g => !thin minCases g).map Prod.fst ↔
      k ∈ localGroups stats ∧ minCases.toNat ≤ casesOf stats k := by
  rw [List.mem_map]
  constructor
  · rintro ⟨g, hg, rfl⟩
    rcases List.mem_filter.1 hg with ⟨hmem, hthick⟩
    rw [Bool.not_eq_true', ← Bool.not_eq_true, thin_iff hm hfit hmem, not_lt] at hthick
    exact ⟨((mem_entries hm).1 hmem).1, hthick⟩
  · rintro ⟨hk, hle⟩
    -- the entry of the key is the accumulator of its runs
    have hmem : (k, Acc.ofRuns (runsOf stats k)) ∈ m.entries := (mem_entries hm).2 ⟨hk, rfl⟩
    refine ⟨_, List.mem_filter.2 ⟨hmem, ?_⟩, rfl⟩
    rw [Bool.not_eq_true', ← Bool.not_eq_true, thin_iff hm hfit hmem]
    exact not_lt.2 hle

/-- The groups withheld. -/
theorem length_withheld (hm : GroupsOf stats m) (hfit : ∀ k, casesOf stats k < 2 ^ 32) :
    (m.entries.filter (thin minCases)).length = (thinGroups stats minCases).card := by
  -- the keys of a map differ, so counting entries counts keys
  have hnodup : ((m.entries.filter (thin minCases)).map Prod.fst).Nodup :=
    m.nodup_keys.sublist (List.filter_sublist.map _)
  have hset : ((m.entries.filter (thin minCases)).map Prod.fst).toFinset =
      thinGroups stats minCases := by
    ext k
    unfold thinGroups
    rw [List.mem_toFinset, List.mem_map, Finset.mem_filter]
    constructor
    · rintro ⟨g, hg, rfl⟩
      rcases List.mem_filter.1 hg with ⟨hmem, hthin⟩
      exact ⟨((mem_entries hm).1 hmem).1, (thin_iff hm hfit hmem).1 hthin⟩
    · rintro ⟨hk, hlt⟩
      have hmem : (k, Acc.ofRuns (runsOf stats k)) ∈ m.entries := (mem_entries hm).2 ⟨hk, rfl⟩
      exact ⟨_, List.mem_filter.2 ⟨hmem, (thin_iff hm hfit hmem).2 hlt⟩, rfl⟩
  rw [← hset, List.toFinset_card_of_nodup hnodup, List.length_map]

theorem perm_sortEntries (es : List ModelDigestEntry) : (sortEntries es).Perm es :=
  List.mergeSort_perm ..

/-- A digest whose counts fit is exact. -/
theorem suppresses_of_fit (hfit : CasesFit stats minCases) :
    ∃ out, buildDigestCounted checks stats minCases = .ok out ∧ Suppresses stats minCases out := by
  have hok : ∃ m, digestGroups checks stats = .ok m ∧ GroupsOf stats m := digestGroups_ok hfit.1
  rcases hok with ⟨m, hgroups, hm⟩
  have hbuild : buildDigestCounted checks stats minCases =
      .ok (sortEntries ((m.entries.filter fun g => !thin minCases g).map digestEntry),
        .ofNat (m.entries.filter (thin minCases)).length) := by
    unfold buildDigestCounted
    rw [hgroups]
    rfl
  refine ⟨_, hbuild, ?_⟩
  have hperm := perm_sortEntries ((m.entries.filter fun g => !thin minCases g).map digestEntry)
  -- sorting moves the entries about and keeps their keys
  have hkeys : ((sortEntries ((m.entries.filter fun g => !thin minCases g).map digestEntry)).map
      ModelDigestEntry.key).Perm ((m.entries.filter fun g => !thin minCases g).map Prod.fst) := by
    refine (hperm.map _).trans (List.Perm.of_eq ?_)
    rw [List.map_map]
    rfl
  have hemitted : ∀ k, k ∈ (sortEntries ((m.entries.filter fun g =>
      !thin minCases g).map digestEntry)).map ModelDigestEntry.key ↔
        k ∈ localGroups stats ∧ minCases.toNat ≤ casesOf stats k := by
    intro k
    rw [hkeys.mem_iff, mem_kept hm hfit.1]
  exact
    { emitted := hemitted
      once := hkeys.nodup_iff.2 (m.nodup_keys.sublist (List.filter_sublist.map _))
      exact := by
        intro e he
        rcases List.mem_map.1 (hperm.mem_iff.1 he) with ⟨g, hg, rfl⟩
        exact nCases_digestEntry hm hfit.1 (List.mem_filter.1 hg).1
      backed := fun e he => ((hemitted e.key).1 (List.mem_map_of_mem he)).2
      withheld := by
        rw [UInt32.toNat_ofNat_of_lt', length_withheld hm hfit.1]
        rw [length_withheld hm hfit.1]
        exact hfit.2 }

/-- An exact digest publishes every count there is to publish. -/
theorem fit_of_suppresses {out : List ModelDigestEntry × UInt32}
    (h : Suppresses stats minCases out) : CasesFit stats minCases := by
  refine ⟨fun k => ?_, ?_⟩
  · by_cases hk : k ∈ localGroups stats
    · by_cases hle : minCases.toNat ≤ casesOf stats k
      · -- an emitted count is a 32-bit number and exact, so the cases fit
        rcases List.mem_map.1 ((h.emitted k).2 ⟨hk, hle⟩) with ⟨e, he, rfl⟩
        rw [← h.exact e he]
        exact e.nCases.toNat_lt
      · exact lt_trans (not_le.1 hle) minCases.toNat_lt
    · rw [casesOf_eq_zero hk]
      exact Nat.two_pow_pos 32
  · rw [← h.withheld]
    exact out.2.toNat_lt

end Digest

/-- **When a digest is exact.** -/
theorem digest_suppresses_iff (checks : Bool) (stats : List RunStat) (minCases : UInt32) :
    (∃ out, buildDigestCounted checks stats minCases = .ok out ∧ Suppresses stats minCases out) ↔
      CasesFit stats minCases :=
  ⟨fun ⟨_, _, h⟩ => fit_of_suppresses h, suppresses_of_fit⟩

/-- A run of so many cases. -/
def caseRun (n : UInt32) : RunStat :=
  { provider := "anthropic", model := "m", taskType := "t", quality := 1, passRate := 1
    costPerCaseUsd := 0, nCases := n, p50LatencyMs := none, p95LatencyMs := none
    judgeProvider := none, rubricFingerprint := none, determinism := none
    datasetFrozen := none, datasetVersion := none, significanceTested := none }

/-- The cases of two runs add up to `2 ^ 32`; their group is published with none. -/
theorem digest_counts_wrap :
    (∃ out, buildDigestCounted false [caseRun 4294967295, caseRun 1] 5 = .ok out ∧
      out.1.map (·.nCases) = [0]) ∧
    ¬ ∃ out, buildDigestCounted false [caseRun 4294967295, caseRun 1] 5 = .ok out ∧
      Suppresses [caseRun 4294967295, caseRun 1] 5 out := by
  constructor
  · refine ⟨_, rfl, ?_⟩
    exact List.perm_singleton.1 (((perm_sortEntries _).map (·.nCases)).trans (List.Perm.of_eq rfl))
  · rintro ⟨out, -, h⟩
    have hfit := (fit_of_suppresses h).1 (caseRun 1).key
    revert hfit
    decide

end LightTrack
