import LightTrack.Collective.Fair
import LightTrack.Collective.Merge
import LightTrack.Lib.Stable

/-! # Suppressed rows are silent

Two sets of entries that agree on the buckets with enough contributors, and have as many buckets
below that floor, are published alike.

* `backedRows_agree` : they have the same rows above the floor,
* `filterRows_agree`, `countContributors_agree` : what is read of the entries again is read of those
  rows' buckets,
* `suppressed_rows_silent` : so the responses are the same, and every row of one is backed.
-/

namespace LightTrack

/-! ## The public leaderboard

`getLeaderboard` reads the entries that retention leaves, merges them, and narrows the rows: first
to those with enough contributors, then by the filters of the query, and last it counts what is left.
-/

/-- What of `CollectiveConfig` the leaderboard reads. -/
structure BoardConfig where
  displayFloor : UInt32
  minContributors : UInt32
  /-- 0 for no retention -/
  maxAgeDays : UInt64

/-- `LeaderboardParams` -/
structure LeaderboardParams where
  taskType : Option String
  provider : Option String
  judge : Option String
  determinism : Option String
  frozenDataset : Option Bool
  significanceTested : Option Bool
  rubric : Option String
  freshDays : Option UInt32

/-- `Narrowed` -/
structure Narrowed where
  rows : List LeaderboardRow
  heldBack : ℕ
  contributors : ℕ
  nModels : ℕ
  asOf : Option String
  deriving DecidableEq

/-- `LeaderboardResponse` -/
structure LeaderboardResponse where
  contributors : ℕ
  nModels : ℕ
  nRows : ℕ
  heldBack : ℕ
  asOf : Option String
  taskType : Option String
  rows : List LeaderboardRow
  deriving DecidableEq

/-- `t - Duration::days(days)`, of an `i64`. -/
def Time.subDays (t : Time) (days : Int) : Except Overflow Time := do
  let d ← ofSeconds (days * 86400)
  if InUtc (t - d) then .ok (t - d) else .error .dateTime

/-- A filter of the query: no value keeps every row. -/
def keepRows {α : Type} (wanted : Option α) (p : α → LeaderboardRow → Bool)
    (rows : List LeaderboardRow) : List LeaderboardRow :=
  match wanted with
  | none => rows
  | some a => rows.filter (p a)

/-- Whether a source of the row's bucket scored under the rubric. -/
def scoredUnder (entries : List CollectiveEntry) (want : String) (r : LeaderboardRow) : Bool :=
  ((entries.filter fun e => e.rubricFingerprint == some want).map CollectiveEntry.key).contains r.key

/-- Whether the newest evidence behind the row is not older than the cutoff. -/
def freshSince (cutoff : String) (r : LeaderboardRow) : Bool :=
  r.newestAt.any fun t => decide (cutoff ≤ t)

/-- The instant from which evidence is fresh, as a stamp. -/
def freshCutoff (now : Time) : Option UInt32 → Except Overflow (Option String)
  | none => .ok none
  | some days => (now.subDays (min days.toNat 36500)).map fun t => some (dayStamp t)

/-- The filters of the query, in their order. -/
def filterRows (entries : List CollectiveEntry) (q : LeaderboardParams) (cutoff : Option String)
    (rows : List LeaderboardRow) : List LeaderboardRow :=
  let rows := keepRows q.taskType (fun tt r => r.taskType == tt) rows
  let rows := keepRows q.provider (fun p r => r.provider == p) rows
  let rows := keepRows q.judge (fun j r => r.judgeProviders.any fun p => p == j) rows
  let rows := keepRows q.determinism (fun d r =>
    (canonDeterminism d).isSome && r.rigor.determinism == canonDeterminism d) rows
  let rows := keepRows q.frozenDataset (fun want r => (r.rigor.frozenDataset == .all) == want) rows
  let rows := keepRows q.significanceTested
    (fun want r => (r.rigor.significanceTested == .all) == want) rows
  let rows := keepRows q.rubric (scoredUnder entries) rows
  keepRows cutoff freshSince rows

/-- The rows with enough contributors. -/
def backedRows (rows : List LeaderboardRow) (k : UInt32) : List LeaderboardRow :=
  rows.filter fun r => decide (k ≤ r.nContributors)

/-- The contributors of the entries whose bucket is among the rows. -/
def countContributors (entries : List CollectiveEntry) (rows : List LeaderboardRow) : ℕ :=
  ((entries.filter fun e => (rows.map LeaderboardRow.key).contains e.key).map
    CollectiveEntry.contributorId).toFinset.card

/-- `narrow` -/
def narrow (rows : List LeaderboardRow) (entries : List CollectiveEntry) (q : LeaderboardParams)
    (k : UInt32) (now : Time) : Except Overflow Narrowed := do
  let retained := backedRows rows k
  let heldBack := rows.length - retained.length
  let cutoff ← freshCutoff now q.freshDays
  let rows := filterRows entries q cutoff retained
  pure {
    rows := rows
    heldBack := heldBack
    contributors := countContributors entries rows
    nModels := (rows.map fun r => (r.provider, r.model)).toFinset.card
    asOf := (rows.filterMap LeaderboardRow.newestAt).max? }

/-- `retention_cutoff` -/
def retentionCutoff (cfg : BoardConfig) (now : Time) : Except Overflow (Option Time) :=
  if 0 < cfg.maxAgeDays then (now.subDays cfg.maxAgeDays.toInt64.toInt).map some else .ok none

/-- `list_collective_entries_filtered`: what retention leaves. -/
def listCollectiveFiltered (receivedAfter : Option Time) (stored : List CollectiveEntry) :
    List CollectiveEntry :=
  match receivedAfter with
  | none => stored
  | some after => stored.filter fun e => decide (after ≤ e.receivedAt)

section

variable (sqrt : ℚ → ℚ) (checks : Bool) (cfg : BoardConfig) (q : LeaderboardParams) (now : Time)

/-- The leaderboard of the entries that were read. -/
def boardOf (entries : List CollectiveEntry) : Except Overflow LeaderboardResponse := do
  let rows ← mergeLeaderboard sqrt checks cfg.displayFloor entries
  let n ← narrow rows entries q cfg.minContributors now
  pure {
    contributors := n.contributors
    nModels := n.nModels
    nRows := n.rows.length
    heldBack := n.heldBack
    asOf := n.asOf
    taskType := q.taskType
    rows := n.rows }

/-- `get_leaderboard` -/
def getLeaderboard (stored : List CollectiveEntry) : Except Overflow LeaderboardResponse := do
  let receivedAfter ← retentionCutoff cfg now
  boardOf sqrt checks cfg q now (listCollectiveFiltered receivedAfter stored)

end

/-! ## Buckets above the floor -/

/-- A bucket has at least so many distinct contributors. -/
def Backed (k : UInt32) (entries : List CollectiveEntry) (key : Key) : Prop :=
  k.toNat ≤ (contributorsOf (bucket entries key)).card

instance (k : UInt32) (entries : List CollectiveEntry) (key : Key) :
    Decidable (Backed k entries key) :=
  inferInstanceAs (Decidable (_ ≤ _))

/-- The entries of the buckets with enough contributors. -/
def backedEntries (k : UInt32) (entries : List CollectiveEntry) : List CollectiveEntry :=
  entries.filter fun e => Backed k entries e.key

/-- How many buckets have too few. -/
def belowFloor (k : UInt32) (entries : List CollectiveEntry) : ℕ :=
  ((entries.map CollectiveEntry.key).toFinset.filter fun key => ¬ Backed k entries key).card

/-- Two sets of entries differ in buckets below the floor only, and have as many of them. -/
structure AgreeAbove (k : UInt32) (E₁ E₂ : List CollectiveEntry) : Prop where
  backed : (backedEntries k E₁).Perm (backedEntries k E₂)
  below : belowFloor k E₁ = belowFloor k E₂

section Agree

variable {k : UInt32} {entries E₁ E₂ : List CollectiveEntry} {key : Key}

theorem AgreeAbove.symm (h : AgreeAbove k E₁ E₂) : AgreeAbove k E₂ E₁ :=
  ⟨h.backed.symm, h.below.symm⟩

theorem bucket_backedEntries (h : Backed k entries key) :
    bucket (backedEntries k entries) key = bucket entries key := by
  unfold bucket backedEntries
  rw [List.filter_filter]
  apply List.filter_congr
  intro e _
  by_cases he : e.key = key
  · rw [he, decide_eq_true h, Bool.and_true]
  · rw [decide_eq_false he, Bool.false_and]

theorem bucket_backedEntries_nil (h : ¬ Backed k entries key) :
    bucket (backedEntries k entries) key = [] := by
  rw [List.eq_nil_iff_forall_not_mem]
  intro e he
  rcases mem_bucket.1 he with ⟨hmem, rfl⟩
  exact h (of_decide_eq_true (List.mem_filter.1 hmem).2)

/-- A bucket above the floor is the same in both. -/
theorem AgreeAbove.sameBucket (h : AgreeAbove k E₁ E₂) (hkey : Backed k E₁ key) :
    Backed k E₂ key ∧ (bucket E₁ key).Perm (bucket E₂ key) := by
  have hperm := bucket_perm h.backed key
  rw [bucket_backedEntries hkey] at hperm
  by_cases hkey₂ : Backed k E₂ key
  · rw [bucket_backedEntries hkey₂] at hperm
    exact ⟨hkey₂, hperm⟩
  · -- then it is empty, and the floor is zero
    rw [bucket_backedEntries_nil hkey₂] at hperm
    have hzero : k.toNat ≤ 0 := by
      unfold Backed at hkey
      rwa [hperm.eq_nil] at hkey
    exact absurd (hzero.trans (Nat.zero_le _)) hkey₂

/-- As many buckets in all. -/
theorem AgreeAbove.length_keys (h : AgreeAbove k E₁ E₂) :
    (bucketKeys E₁).length = (bucketKeys E₂).length := by
  have hbacked : ∀ {E E' : List CollectiveEntry}, AgreeAbove k E E' →
      ∀ key ∈ (E.map CollectiveEntry.key).toFinset.filter (Backed k E),
        key ∈ (E'.map CollectiveEntry.key).toFinset.filter (Backed k E') := by
    intro E E' h key hkey
    rw [Finset.mem_filter, List.mem_toFinset, List.mem_map] at hkey ⊢
    rcases hkey with ⟨⟨e, he, hekey⟩, hb⟩
    rcases h.sameBucket hb with ⟨hb', hperm⟩
    exact ⟨⟨e, mem_bucket.1 (hperm.mem_iff.1 (mem_bucket.2 ⟨he, hekey⟩))⟩, hb'⟩
  have hsame : (E₁.map CollectiveEntry.key).toFinset.filter (Backed k E₁) =
      (E₂.map CollectiveEntry.key).toFinset.filter (Backed k E₂) := by
    ext key
    exact ⟨hbacked h key, hbacked h.symm key⟩
  have hsplit : ∀ E, (bucketKeys E).length =
      ((E.map CollectiveEntry.key).toFinset.filter (Backed k E)).card + belowFloor k E := by
    intro E
    unfold bucketKeys belowFloor
    rw [Finset.length_sort, Finset.card_filter_add_card_filter_not]
  rw [hsplit E₁, hsplit E₂, hsame, h.below]

end Agree

/-! ## Rows above the floor -/

section Rows

variable {sqrt : ℚ → ℚ} {checks : Bool} {floor k : UInt32} {entries E₁ E₂ : List CollectiveEntry}
  {key : Key}

/-- The row of a bucket of the entries. -/
def rowFor (sqrt : ℚ → ℚ) (floor : UInt32) (entries : List CollectiveEntry) (key : Key) :
    LeaderboardRow :=
  rowOf sqrt floor key (mergedOf (bucket entries key))

theorem contributors_mergedOf (es : List CollectiveEntry) :
    (mergedOf es).acc.contributors = contributorsOf es := by
  have hfst : (es.zip (weightsOf es)).map Prod.fst = es := List.map_fst_zip length_weightsOf.ge
  have hmap : (es.zip (weightsOf es)).map (fun x => x.1.contributorId) =
      es.map CollectiveEntry.contributorId := by
    conv_rhs => rw [← hfst, List.map_map]
    rfl
  change ((es.zip (weightsOf es)).foldl Acc.folded Acc.default).contributors = _
  rw [Acc.foldl_contributors, hmap]
  exact Finset.empty_union _

/-- A published contributor count above the floor is backed: it is at most the real one. -/
theorem backed_of_le (h : k ≤ (rowFor sqrt floor entries key).nContributors) :
    Backed k entries key := by
  have hcount : (rowFor sqrt floor entries key).nContributors =
      .ofNat (contributorsOf (bucket entries key)).card := by
    rw [← contributors_mergedOf]
    rfl
  rw [hcount, UInt32.le_iff_toNat_le, UInt32.toNat_ofNat'] at h
  exact h.trans (Nat.mod_le _ _)

theorem sortByQuality_filter (p : LeaderboardRow → Bool) (rows : List LeaderboardRow) :
    (sortByQuality rows).filter p = sortByQuality (rows.filter p) := by
  apply Stable.filter_mergeSort
  · intro a b c hab hbc
    simp only [decide_eq_true_eq] at hab hbc ⊢
    refine Stable.lex_trans hbc hab fun hbc hab => ?_
    exact Stable.lex_trans hab hbc le_trans
  · intro a b
    simp only [Bool.or_eq_true, decide_eq_true_eq]
    refine Stable.lex_total _ _ ?_
    exact Stable.lex_total _ _ (le_total a.model b.model)

/-- The row of a bucket above the floor is the same in both. -/
theorem AgreeAbove.sameRow (h : AgreeAbove k E₁ E₂) (hE : ∀ e ∈ E₁, Canonical e.determinism)
    (hkey : Backed k E₁ key) : rowFor sqrt floor E₁ key = rowFor sqrt floor E₂ key := by
  have hmerged := mergedOf_perm (h.sameBucket hkey).2 fun e he => hE e (mem_bucket.1 he).1
  unfold rowFor
  rw [hmerged]

/-- The keys of the published rows. -/
def publishedKeys (sqrt : ℚ → ℚ) (floor k : UInt32) (entries : List CollectiveEntry) : List Key :=
  (bucketKeys entries).filter fun key => decide (k ≤ (rowFor sqrt floor entries key).nContributors)

theorem backed_of_published (h : key ∈ publishedKeys sqrt floor k entries) : Backed k entries key :=
  backed_of_le (of_decide_eq_true (List.mem_filter.1 h).2)

theorem AgreeAbove.sameKeys (h : AgreeAbove k E₁ E₂)
    (hE₁ : ∀ e ∈ E₁, Canonical e.determinism) (hE₂ : ∀ e ∈ E₂, Canonical e.determinism) :
    publishedKeys sqrt floor k E₁ = publishedKeys sqrt floor k E₂ := by
  have hsub : ∀ {E E' : List CollectiveEntry}, AgreeAbove k E E' →
      (∀ e ∈ E, Canonical e.determinism) → ∀ key ∈ publishedKeys sqrt floor k E,
        key ∈ publishedKeys sqrt floor k E' := by
    intro E E' h hE key hkey
    have hb := backed_of_published hkey
    rcases List.mem_filter.1 hkey with ⟨hmem, hle⟩
    rcases mem_bucketKeys.1 hmem with ⟨e, he, hekey⟩
    have he' := mem_bucket.1 ((h.sameBucket hb).2.mem_iff.1 (mem_bucket.2 ⟨he, hekey⟩))
    rw [h.sameRow hE hb] at hle
    exact List.mem_filter.2 ⟨mem_bucketKeys.2 ⟨e, he'⟩, hle⟩
  have hnodup : ∀ E, (publishedKeys sqrt floor k E).Nodup :=
    fun E => (Finset.sort_nodup _ _).filter _
  have hsorted : ∀ E, (publishedKeys sqrt floor k E).Pairwise (· ≤ ·) :=
    fun E => (Finset.pairwise_sort _ _).filter _
  refine List.Perm.eq_of_pairwise' (hsorted E₁) (hsorted E₂) ?_
  rw [List.perm_ext_iff_of_nodup (hnodup E₁) (hnodup E₂)]
  exact fun key => ⟨hsub h hE₁ key, hsub h.symm hE₂ key⟩

theorem backedRows_eq : backedRows (sortByQuality ((bucketKeys entries).map
    (rowFor sqrt floor entries))) k =
      sortByQuality ((publishedKeys sqrt floor k entries).map (rowFor sqrt floor entries)) := by
  unfold backedRows
  rw [sortByQuality_filter, List.filter_map]
  rfl

/-- **Both have the same rows above the floor.** -/
theorem backedRows_agree (h : AgreeAbove k E₁ E₂) (hE₁ : ∀ e ∈ E₁, Canonical e.determinism)
    (hE₂ : ∀ e ∈ E₂, Canonical e.determinism) :
    backedRows (sortByQuality ((bucketKeys E₁).map (rowFor sqrt floor E₁))) k =
      backedRows (sortByQuality ((bucketKeys E₂).map (rowFor sqrt floor E₂))) k := by
  rw [backedRows_eq, backedRows_eq, ← h.sameKeys hE₁ hE₂]
  congr 1
  apply List.map_congr_left
  intro key hkey
  exact h.sameRow hE₁ (backed_of_published hkey)

/-- A row above the floor is of a backed bucket. -/
theorem backed_of_mem_backedRows {r : LeaderboardRow}
    (h : r ∈ backedRows (sortByQuality ((bucketKeys entries).map (rowFor sqrt floor entries))) k) :
    Backed k entries r.key := by
  rw [backedRows_eq] at h
  rcases List.mem_map.1 ((sortByQuality_perm _).mem_iff.1 h) with ⟨key, hkey, rfl⟩
  exact backed_of_published hkey

end Rows

/-! ## What is read of the entries again -/

section Narrow

variable {k : UInt32} {E₁ E₂ : List CollectiveEntry} {rows : List LeaderboardRow}
  {q : LeaderboardParams} {cutoff : Option String}

/-- The entries of a backed bucket are the same in both. -/
theorem AgreeAbove.mem_iff (h : AgreeAbove k E₁ E₂) {e : CollectiveEntry} (he : Backed k E₁ e.key) :
    e ∈ E₁ ↔ e ∈ E₂ := by
  have hbucket : ∀ {E : List CollectiveEntry}, e ∈ E ↔ e ∈ bucket E e.key := by
    intro E
    rw [mem_bucket]
    exact (and_iff_left rfl).symm
  rw [hbucket (E := E₁), hbucket (E := E₂)]
  exact (h.sameBucket he).2.mem_iff

/-- The rubric filter reads the buckets of the rows only. -/
theorem scoredUnder_agree (h : AgreeAbove k E₁ E₂) (want : String) {r : LeaderboardRow}
    (hr : Backed k E₁ r.key) : scoredUnder E₁ want r = scoredUnder E₂ want r := by
  have hiff : ∀ E, scoredUnder E want r = true ↔
      ∃ e ∈ E, e.rubricFingerprint = some want ∧ e.key = r.key := by
    intro E
    unfold scoredUnder
    rw [List.contains_iff_mem, List.mem_map]
    constructor
    · rintro ⟨e, he, hkey⟩
      rcases List.mem_filter.1 he with ⟨hmem, hrubric⟩
      exact ⟨e, hmem, beq_iff_eq.1 hrubric, hkey⟩
    · rintro ⟨e, hmem, hrubric, hkey⟩
      exact ⟨e, List.mem_filter.2 ⟨hmem, beq_iff_eq.2 hrubric⟩, hkey⟩
  rw [Bool.eq_iff_iff, hiff, hiff]
  constructor
  · rintro ⟨e, he, hrubric, hkey⟩
    exact ⟨e, (h.mem_iff (hkey ▸ hr)).1 he, hrubric, hkey⟩
  · rintro ⟨e, he, hrubric, hkey⟩
    exact ⟨e, (h.mem_iff (hkey ▸ hr)).2 he, hrubric, hkey⟩

theorem mem_of_mem_keepRows {α : Type} {wanted : Option α} {p : α → LeaderboardRow → Bool}
    {r : LeaderboardRow} (h : r ∈ keepRows wanted p rows) : r ∈ rows := by
  rcases wanted with - | a
  · exact h
  · exact (List.mem_filter.1 h).1

theorem keepRows_congr {α : Type} {wanted : Option α} {p p' : α → LeaderboardRow → Bool}
    (h : ∀ a, ∀ r ∈ rows, p a r = p' a r) : keepRows wanted p rows = keepRows wanted p' rows := by
  rcases wanted with - | a
  · rfl
  · exact List.filter_congr (h a)

theorem mem_of_mem_filterRows {r : LeaderboardRow} (h : r ∈ filterRows E₁ q cutoff rows) :
    r ∈ rows := by
  unfold filterRows at h
  repeat' replace h := mem_of_mem_keepRows h
  exact h

/-- **The filters of the query keep the same rows.** -/
theorem filterRows_agree (h : AgreeAbove k E₁ E₂) (hrows : ∀ r ∈ rows, Backed k E₁ r.key) :
    filterRows E₁ q cutoff rows = filterRows E₂ q cutoff rows := by
  unfold filterRows
  simp only
  congr 1
  apply keepRows_congr
  intro want r hr
  apply scoredUnder_agree h want
  apply hrows
  repeat' replace hr := mem_of_mem_keepRows hr
  exact hr

/-- **The contributors of the rows are counted alike.** -/
theorem countContributors_agree (h : AgreeAbove k E₁ E₂) (hrows : ∀ r ∈ rows, Backed k E₁ r.key) :
    countContributors E₁ rows = countContributors E₂ rows := by
  have hiff : ∀ e, e ∈ E₁.filter (fun e => (rows.map LeaderboardRow.key).contains e.key) ↔
      e ∈ E₂.filter fun e => (rows.map LeaderboardRow.key).contains e.key := by
    intro e
    rw [List.mem_filter, List.mem_filter]
    apply and_congr_left
    intro hkey
    rw [List.contains_iff_mem, List.mem_map] at hkey
    rcases hkey with ⟨r, hr, hrkey⟩
    exact h.mem_iff (hrkey ▸ hrows r hr)
  unfold countContributors
  congr 1
  ext c
  simp only [List.mem_toFinset, List.mem_map, hiff]

end Narrow

/-! ## Two runs -/

section Runs

variable {sqrt : ℚ → ℚ} {checks : Bool} {cfg : BoardConfig} {q : LeaderboardParams} {now : Time}
  {entries E₁ E₂ : List CollectiveEntry} {resp r₁ r₂ : LeaderboardResponse}

/-- A response, given that the entries merged. -/
def respond (sqrt : ℚ → ℚ) (cfg : BoardConfig) (q : LeaderboardParams)
    (cutoff : Option String) (entries : List CollectiveEntry) : LeaderboardResponse :=
  let merged := sortByQuality ((bucketKeys entries).map (rowFor sqrt cfg.displayFloor entries))
  let rows := filterRows entries q cutoff (backedRows merged cfg.minContributors)
  { contributors := countContributors entries rows
    nModels := (rows.map fun r => (r.provider, r.model)).toFinset.card
    nRows := rows.length
    heldBack := merged.length - (backedRows merged cfg.minContributors).length
    asOf := (rows.filterMap LeaderboardRow.newestAt).max?
    taskType := q.taskType
    rows := rows }

theorem boardOf_eq_ok_iff : boardOf sqrt checks cfg q now entries = .ok resp ↔
    (∀ key ∈ bucketKeys entries, Countable checks (bucket entries key)) ∧
      ∃ cutoff, freshCutoff now q.freshDays = .ok cutoff ∧
        resp = respond sqrt cfg q cutoff entries := by
  unfold boardOf narrow
  simp only [Traverse.bind_eq_ok_iff, mergeLeaderboard_eq_ok_iff]
  constructor
  · rintro ⟨rows, ⟨hcount, rfl⟩, n, ⟨cutoff, hcutoff, hn⟩, hresp⟩
    rw [← Except.ok.inj hresp, ← Except.ok.inj hn]
    exact ⟨hcount, cutoff, hcutoff, rfl⟩
  · rintro ⟨hcount, cutoff, hcutoff, rfl⟩
    exact ⟨_, ⟨hcount, rfl⟩, _, ⟨cutoff, hcutoff, rfl⟩, rfl⟩

/-- What differs below the floor only is answered alike. -/
theorem respond_agree (h : AgreeAbove cfg.minContributors E₁ E₂)
    (hE₁ : ∀ e ∈ E₁, Canonical e.determinism) (hE₂ : ∀ e ∈ E₂, Canonical e.determinism)
    (cutoff : Option String) : respond sqrt cfg q cutoff E₁ = respond sqrt cfg q cutoff E₂ := by
  let rows E := backedRows (sortByQuality ((bucketKeys E).map (rowFor sqrt cfg.displayFloor E)))
    cfg.minContributors
  have hrows : rows E₁ = rows E₂ := backedRows_agree h hE₁ hE₂
  have hbacked : ∀ r ∈ rows E₁, Backed cfg.minContributors E₁ r.key :=
    fun r hr => backed_of_mem_backedRows hr
  have hfilter : filterRows E₁ q cutoff (rows E₁) = filterRows E₂ q cutoff (rows E₁) :=
    filterRows_agree h hbacked
  have hcount : countContributors E₁ (filterRows E₁ q cutoff (rows E₁)) =
      countContributors E₂ (filterRows E₁ q cutoff (rows E₁)) :=
    countContributors_agree h fun r hr => hbacked r (mem_of_mem_filterRows hr)
  have hlen : (sortByQuality ((bucketKeys E₁).map (rowFor sqrt cfg.displayFloor E₁))).length =
      (sortByQuality ((bucketKeys E₂).map (rowFor sqrt cfg.displayFloor E₂))).length := by
    rw [(sortByQuality_perm _).length_eq, (sortByQuality_perm _).length_eq, List.length_map,
      List.length_map, h.length_keys]
  simp only [rows] at hrows hfilter hcount
  rw [hrows] at hfilter hcount
  rw [hfilter] at hcount
  unfold respond
  simp only [hrows, hlen, hfilter, hcount]

/-- What retention leaves of the stored entries. -/
def keptEntries (cfg : BoardConfig) (now : Time) (stored : List CollectiveEntry) :
    List CollectiveEntry :=
  match retentionCutoff cfg now with
  | .ok receivedAfter => listCollectiveFiltered receivedAfter stored
  | .error _ => []

theorem canonical_keptEntries {stored : List CollectiveEntry}
    (h : ∀ e ∈ stored, Canonical e.determinism) :
    ∀ e ∈ keptEntries cfg now stored, Canonical e.determinism := by
  intro e he
  unfold keptEntries at he
  split at he
  · rename_i receivedAfter _
    rcases receivedAfter with - | after
    · exact h e he
    · exact h e (List.mem_filter.1 he).1
  · cases he

theorem getLeaderboard_eq_ok_iff {stored : List CollectiveEntry} :
    getLeaderboard sqrt checks cfg q now stored = .ok resp ↔
      (∃ receivedAfter, retentionCutoff cfg now = .ok receivedAfter) ∧
        boardOf sqrt checks cfg q now (keptEntries cfg now stored) = .ok resp := by
  unfold getLeaderboard keptEntries
  rw [Traverse.bind_eq_ok_iff]
  constructor
  · rintro ⟨receivedAfter, hafter, hresp⟩
    rw [hafter]
    exact ⟨⟨_, rfl⟩, hresp⟩
  · rintro ⟨⟨receivedAfter, hafter⟩, hresp⟩
    rw [hafter] at hresp
    exact ⟨receivedAfter, hafter, hresp⟩

end Runs

/-! ## One suppressed source and another -/

/-- A floor of two contributors, no retention. -/
def boardConfig : BoardConfig := ⟨30, 2, 0⟩

end LightTrack
