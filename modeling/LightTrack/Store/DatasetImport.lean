import LightTrack.Anon.Scrub
import LightTrack.Core.Event
import LightTrack.Core.Text
import LightTrack.Lib.Quota
import LightTrack.Store.EventPages

/-! # Mining stored rows into a dataset

`store/src/dataset_import.rs` and `store/src/sqlite/dataset_import.rs`.  A stratified import counts
the `(model, status)` groups of the matched events, gives each the same quota and caps the whole at
`MAX_IMPORT_N` rows.

* `select_drawn` : of every group at most the quota is selected, and each event once,
* `keepsStrata_select_iff` : every group gets its whole quota exactly when the cap leaves room,
* `keepNew_spec` : what `dedupe` lets through,
* `importItems_keeps` : with a frozen dataset left alone, what an import keeps to.
-/

/-! ## Where the cases of an eval corpus come from

`core/src/dataset_lineage.rs`: an `ImportSpec` names the rows that become cases and the strategy
they are sampled by; `inputFingerprint` is the fingerprint near-duplicates share.
-/

namespace LightTrack

/-- How to choose `n` rows out of the rows a filter matched. -/
inductive SamplingStrategy where
  | recent
  | random
  | stratified
  | errors
  deriving DecidableEq

/-- Which table the cases are mined from. -/
inductive ImportSource where
  | events
  | scores
  deriving DecidableEq

/-- What narrows the candidate rows. -/
structure ImportFilter where
  pass : Option Bool := none
  status : Option Status := none
  model : Option String := none
  since : Option Time := none
  below : Option ℚ := none

structure ImportSpec where
  source : ImportSource := .events
  filter : ImportFilter := {}
  strategy : SamplingStrategy := .recent
  n : ℕ := 50
  dedupe : Bool := false
  eventIds : List String := []

def DEFAULT_N : ℕ := 50

def MAX_IMPORT_N : ℕ := 5000

namespace ImportSpec

def effectiveN (spec : ImportSpec) : ℕ :=
  if spec.n = 0 then DEFAULT_N else min spec.n MAX_IMPORT_N

def isExplicit (spec : ImportSpec) : Bool := !spec.eventIds.isEmpty

/-- Whether every `(model, status)` group gets a quota. -/
def isStratified (spec : ImportSpec) : Bool := spec.strategy == .stratified && !spec.isExplicit

/-- The spec a failing online verdict enqueues for one event. -/
def forEvent (eventId : String) : ImportSpec where
  source := .scores
  filter := { pass := some false }
  strategy := .errors
  n := 1
  dedupe := true
  eventIds := [eventId]

end ImportSpec

/-! ## Fingerprints -/

/-- What a fingerprint takes from outside: full Unicode lower case, and SHA-256 in hex. -/
structure Hashing where
  toLowercase : String → String
  sha256Hex : String → String

/-- `str::split_whitespace`. -/
def splitWhitespace (s : String) : List String :=
  ((s.toList.splitOnP isWhite).filter fun w => !w.isEmpty).map String.ofList

def normalizeInput (h : Hashing) (s : String) : String :=
  " ".intercalate ((splitWhitespace s).map h.toLowercase)

def inputFingerprint (h : Hashing) (s : String) : String := h.sha256Hex (normalizeInput h s)

end LightTrack

namespace LightTrack

/-- One row of `scores`, as far as an import reads it. -/
structure ScoreRow where
  eventId : Option String
  value : ℚ
  max : ℚ
  pass : Option Bool

/-- One row of `datasets`, as far as an import reads it. -/
structure Dataset where
  id : String
  projectId : String
  frozen : Bool
  createdAt : Time

inductive Difficulty where
  | easy
  | medium
  | hard
  deriving DecidableEq

structure DatasetItem where
  id : String
  datasetId : String
  input : String
  output : Option String
  expected : Option String
  context : Option String
  tags : List String
  sourceEventId : Option String
  anonymization : Json
  inputHash : Option String
  difficulty : Option Difficulty

namespace DatasetImport

/-! ## Selection -/

/-- An event, with one of its scores where the cases are mined from judged traffic. -/
abbrev Joined := EventRow × Option ScoreRow

/-- `FROM events e`, or `FROM events e JOIN scores s ON s.event_id = e.id`. -/
def fromClause (spec : ImportSpec) (rows : List EventRow) (scores : List ScoreRow) : List Joined :=
  match spec.source with
  | .events => rows.map fun r => (r, none)
  | .scores => rows.flatMap fun r =>
      (scores.filter fun s => s.eventId == some r.id).map fun s => (r, some s)

/-- The `WHERE` of `build_where`. A comparison with NULL holds of no row. -/
def buildWhere (ds : Dataset) (spec : ImportSpec) (j : Joined) : Bool :=
  let (e, s) := j
  e.projectId == ds.projectId && (e.input.any fun text => text.render != "") &&
    if spec.isExplicit then spec.eventIds.contains e.id
    else
      spec.filter.model.all (fun m => e.model == m) &&
        spec.filter.status.all (fun st => e.status == st) &&
        spec.filter.since.all (fun since => decide (fmtTs since ≤ fmtTs e.ts)) &&
        (match spec.source, s with
          | .events, _ | .scores, none => true
          | .scores, some s =>
            spec.filter.pass.all (fun p => s.pass == some p) &&
              spec.filter.below.all fun b => s.max != 0 && decide (s.value / s.max < b)) &&
        (spec.strategy != .errors ||
          match spec.source with
          | .events => e.status != .success
          | .scores => s.any fun s => s.pass == some false)

/-- `(e.model, e.status)`. -/
def stratum (r : EventRow) : String × Status := (r.model, r.status)

/-- `ORDER BY e.ts DESC`, on the text of the column. -/
def newestFirst (a b : EventRow) : Bool := decide (fmtTs b.ts ≤ fmtTs a.ts)

/-- `GROUP BY e.id`: the columns of one event are the same in every row it was joined into. -/
def groupById (js : List Joined) : List EventRow :=
  (Group.groupsBy (fun j : Joined => j.1.id) js).filterMap fun g => g.2.head?.map Prod.fst

/-- `stratum_quota`. -/
def stratumQuota (n groups : ℕ) : ℕ := if groups = 0 then 0 else max ((n + groups - 1) / groups) 1

theorem stratumQuota_eq {n groups : ℕ} (hg : 0 < groups) :
    stratumQuota n groups = max 1 ⌈(n : ℚ) / groups⌉₊ := by
  have hceil : ⌈(n : ℚ) / groups⌉₊ = (n + groups - 1) / groups := by
    refine eq_of_forall_ge_iff fun c => ?_
    have hpos : (0 : ℚ) < groups := Nat.cast_pos.2 hg
    rw [Nat.ceil_le, div_le_iff₀ hpos, ← Nat.cast_mul, Nat.cast_le,
      ← Nat.lt_succ_iff (n := c), Nat.div_lt_iff_lt_mul hg, Nat.succ_mul]
    omega
  rw [stratumQuota, if_neg (Nat.ne_of_gt hg), hceil, max_comm]

/-- What the engine is free to choose: the order it visits rows in, the order it yields them in
where a query fixes none, and the draw of `ORDER BY RANDOM()`. -/
structure Planner where
  scan : List EventRow → List EventRow
  emit : List EventRow → List EventRow
  draw : List EventRow → List EventRow
  scan_perm : ∀ l, (scan l).Perm l
  emit_perm : ∀ l, (emit l).Perm l
  draw_perm : ∀ l, (draw l).Perm l

/-- The rows that matched, one for each event and score. -/
def matchedRows (ds : Dataset) (spec : ImportSpec) (rows : List EventRow)
    (scores : List ScoreRow) : List Joined :=
  (fromClause spec rows scores).filter (buildWhere ds spec)

/-- `SELECT COUNT(*) FROM (SELECT 1 … GROUP BY e.model, e.status)`. -/
def countStrata (js : List Joined) : ℕ := (js.map fun j => stratum j.1).dedup.length

/-- The rows the query of `select` yields. -/
def select (p : Planner) (ds : Dataset) (spec : ImportSpec) (rows : List EventRow)
    (scores : List ScoreRow) : List EventRow :=
  let js := matchedRows ds spec rows scores
  if spec.isStratified then
    let groups := countStrata js
    let quota := stratumQuota spec.effectiveN groups
    (p.emit (Quota.within newestFirst stratum quota (p.scan (groupById js)))).take
      (min (quota * max groups 1) MAX_IMPORT_N)
  else
    let ordered :=
      match spec.strategy with
      | .random => p.draw (groupById js)
      | _ => (p.scan (groupById js)).mergeSort newestFirst
    ordered.take spec.effectiveN

/-! ## What is selected -/

/-- The matched events, each once. -/
def matchedEvents (ds : Dataset) (spec : ImportSpec) (rows : List EventRow)
    (scores : List ScoreRow) : List EventRow :=
  groupById (matchedRows ds spec rows scores)

/-- The text of the stamp is no smaller, which for years of four digits is no older. -/
def NoOlder (a b : EventRow) : Prop :=
  fmtTs b.ts ≤ fmtTs a.ts ∧ (FourDigitYear b.ts → FourDigitYear a.ts → b.ts ≤ a.ts)

/-- At most the quota of every group is drawn, and altogether what the quotas add up to, if that
is not beyond the cap. -/
structure Drawn (quota : ℕ) (matched selected : List EventRow) : Prop where
  once : (selected.map EventRow.id).Nodup
  mem : ∀ r ∈ selected, r ∈ matched
  atMost : ∀ k, (Quota.inGroup stratum k selected).length ≤ min (Quota.inGroup stratum k matched).length quota
  length : selected.length = min MAX_IMPORT_N (Quota.kept stratum quota matched)

/-- Every group is there with its whole quota, and no event left out is `ahead` of one drawn. -/
structure KeepsStrata (ahead : EventRow → EventRow → Prop) (quota : ℕ)
    (matched selected : List EventRow) : Prop where
  once : (selected.map EventRow.id).Nodup
  top : ∀ k, Quota.IsTop ahead quota (Quota.inGroup stratum k matched) (Quota.inGroup stratum k selected)

theorem newestFirst_trans (a b c : EventRow) (hab : newestFirst a b = true)
    (hbc : newestFirst b c = true) : newestFirst a c = true :=
  decide_eq_true ((of_decide_eq_true hbc).trans (of_decide_eq_true hab))

theorem newestFirst_total (a b : EventRow) : (newestFirst a b || newestFirst b a) = true := by
  rw [Bool.or_eq_true]
  rcases le_total (fmtTs b.ts) (fmtTs a.ts) with h | h
  · exact Or.inl (decide_eq_true h)
  · exact Or.inr (decide_eq_true h)

theorem noOlder_of_newestFirst {a b : EventRow} (h : newestFirst a b = true) : NoOlder a b :=
  ⟨of_decide_eq_true h, fun hb ha => (fmtTs_le_iff hb ha).1 (of_decide_eq_true h)⟩

/-! ### Grouping by id -/

section GroupById

variable {js : List Joined}

theorem exists_joined {r : EventRow} (h : r ∈ groupById js) : ∃ s, (r, s) ∈ js := by
  rcases List.mem_filterMap.1 h with ⟨g, hg, hhead⟩
  rcases Option.map_eq_some_iff.1 hhead with ⟨j, hj, rfl⟩
  have hmem := List.mem_of_mem_head? hj
  rw [Group.mem_groupsBy hg] at hmem
  exact ⟨j.2, (List.mem_filter.1 hmem).1⟩

/-- The rows of one id are rows of one event. -/
def OneEvent (js : List Joined) : Prop := ∀ j ∈ js, ∀ j' ∈ js, j.1.id = j'.1.id → j.1 = j'.1

theorem mem_groupById (hone : OneEvent js) {r : EventRow} {s : Option ScoreRow}
    (h : (r, s) ∈ js) : r ∈ groupById js := by
  rcases Group.exists_group (fun j : Joined => j.1.id) h with ⟨g, hg, hmem⟩
  rcases List.ne_nil_iff_exists_cons.1 (List.ne_nil_of_mem hmem) with ⟨j, rest, hcons⟩
  refine List.mem_filterMap.2 ⟨g, hg, ?_⟩
  have hj : j ∈ g.2 := by
    rw [hcons]
    exact List.mem_cons_self ..
  rw [Group.mem_groupsBy hg, List.mem_filter, beq_iff_eq] at hmem hj
  rw [hcons, List.head?_cons, Option.map_some, hone j hj.1 (r, s) hmem.1 (hj.2.trans hmem.2.symm)]

theorem groupById_ids (js : List Joined) :
    ((groupById js).map EventRow.id).Nodup := by
  have hids : (groupById js).map EventRow.id = (js.map fun j => j.1.id).dedup := by
    rw [← Group.keys_groupsBy (fun j : Joined => j.1.id), groupById, List.map_filterMap,
      ← List.filterMap_eq_map]
    refine List.filterMap_congr ?_
    intro g hg
    rcases List.ne_nil_iff_exists_cons.1 (Group.ne_nil_of_mem_groupsBy hg) with ⟨j, rest, hcons⟩
    have hj : j ∈ g.2 := by
      rw [hcons]
      exact List.mem_cons_self ..
    rw [Group.mem_groupsBy hg, List.mem_filter, beq_iff_eq] at hj
    rw [hcons, List.head?_cons, Option.map_some, Option.map_some, hj.2]
    rfl
  rw [hids]
  exact List.nodup_dedup _

/-- Both queries see the same groups. -/
theorem countStrata_eq (hone : OneEvent js) :
    countStrata js = ((groupById js).map stratum).dedup.length := by
  refine List.Perm.length_eq ((List.perm_ext_iff_of_nodup (List.nodup_dedup _)
    (List.nodup_dedup _)).2 fun k => ?_)
  rw [List.mem_dedup, List.mem_dedup, List.mem_map, List.mem_map]
  constructor
  · intro h
    rcases h with ⟨j, hj, rfl⟩
    exact ⟨j.1, mem_groupById hone hj, rfl⟩
  · intro h
    rcases h with ⟨r, hr, rfl⟩
    rcases exists_joined hr with ⟨s, hs⟩
    exact ⟨(r, s), hs, rfl⟩

end GroupById

theorem mem_fromClause {spec : ImportSpec} {rows : List EventRow} {scores : List ScoreRow}
    {j : Joined} (h : j ∈ fromClause spec rows scores) : j.1 ∈ rows := by
  unfold fromClause at h
  cases hsource : spec.source with
  | events =>
    rw [hsource] at h
    rcases List.mem_map.1 h with ⟨r, hr, rfl⟩
    exact hr
  | scores =>
    rw [hsource] at h
    rcases List.mem_flatMap.1 h with ⟨r, hr, hmem⟩
    rcases List.mem_map.1 hmem with ⟨s, -, rfl⟩
    exact hr

theorem matchedRows_oneEvent (ds : Dataset) (spec : ImportSpec) (t : EventTable)
    (scores : List ScoreRow) : OneEvent (matchedRows ds spec t.rows scores) := by
  intro j hj j' hj' hid
  exact List.inj_on_of_nodup_map t.ids (mem_fromClause (List.mem_filter.1 hj).1)
    (mem_fromClause (List.mem_filter.1 hj').1) hid

/-! ### The stratified query -/

section Stratified

variable (p : Planner) (ds : Dataset) {spec : ImportSpec} (t : EventTable) (scores : List ScoreRow)

/-- The number of groups the filter matched. -/
def strata (ds : Dataset) (spec : ImportSpec) (rows : List EventRow) (scores : List ScoreRow) : ℕ :=
  ((matchedEvents ds spec rows scores).map stratum).dedup.length

/-- The rows within the quota, as the engine yields them. -/
def yielded (p : Planner) (quota : ℕ) (matched : List EventRow) : List EventRow :=
  p.emit (Quota.within newestFirst stratum quota (p.scan matched))

theorem select_eq (hspec : spec.isStratified = true) :
    select p ds spec t.rows scores =
      (yielded p (stratumQuota spec.effectiveN (strata ds spec t.rows scores))
        (matchedEvents ds spec t.rows scores)).take
          (min (stratumQuota spec.effectiveN (strata ds spec t.rows scores) *
            max (strata ds spec t.rows scores) 1) MAX_IMPORT_N) := by
  unfold select
  simp only
  rw [if_pos hspec, countStrata_eq (matchedRows_oneEvent ds spec t scores)]
  rfl

theorem inGroup_yielded_perm (quota : ℕ) (matched : List EventRow) (k : String × Status) :
    (Quota.inGroup stratum k (yielded p quota matched)).Perm
      (Quota.inGroup stratum k (Quota.within newestFirst stratum quota (p.scan matched))) :=
  (p.emit_perm _).filter _

theorem isTop_yielded (quota : ℕ) (matched : List EventRow) (k : String × Status) :
    Quota.IsTop NoOlder quota (Quota.inGroup stratum k matched)
      (Quota.inGroup stratum k (yielded p quota matched)) := by
  have htop := @Quota.isTop_within _ _ _ _ stratum newestFirst_trans newestFirst_total quota
    (p.scan matched) k
  exact (htop.perm ((p.scan_perm matched).filter _)
    (inGroup_yielded_perm p quota matched k).symm).imp fun a b => noOlder_of_newestFirst

theorem yielded_subperm (quota : ℕ) (matched : List EventRow) :
    (yielded p quota matched).Subperm matched :=
  (p.emit_perm _).subperm.trans
    ((Quota.subperm_within quota (p.scan matched)).trans (p.scan_perm matched).subperm)

theorem length_yielded (quota : ℕ) (matched : List EventRow) :
    (yielded p quota matched).length = Quota.kept stratum quota matched := by
  apply Quota.length_eq_kept
  · intro r hr
    exact List.mem_map_of_mem ((yielded_subperm p quota matched).subset hr)
  · intro k _
    exact (isTop_yielded p quota matched k).length

theorem select_length (hspec : spec.isStratified = true) :
    (select p ds spec t.rows scores).length = min MAX_IMPORT_N
      (Quota.kept stratum (stratumQuota spec.effectiveN (strata ds spec t.rows scores))
        (matchedEvents ds spec t.rows scores)) := by
  have hle := @Quota.kept_le _ _ _ stratum
    (stratumQuota spec.effectiveN (strata ds spec t.rows scores))
    (matchedEvents ds spec t.rows scores)
  have hmax := Nat.mul_le_mul_left (stratumQuota spec.effectiveN (strata ds spec t.rows scores))
    (le_max_left (strata ds spec t.rows scores) 1)
  rw [select_eq p ds t scores hspec, List.length_take, length_yielded, min_comm _ MAX_IMPORT_N,
    min_assoc, min_eq_right (hle.trans hmax)]

/-- **What a stratified import draws.** -/
theorem select_drawn (hspec : spec.isStratified = true) :
    Drawn (stratumQuota spec.effectiveN (strata ds spec t.rows scores))
      (matchedEvents ds spec t.rows scores) (select p ds spec t.rows scores) := by
  have hsub : (select p ds spec t.rows scores).Sublist
      (yielded p (stratumQuota spec.effectiveN (strata ds spec t.rows scores))
        (matchedEvents ds spec t.rows scores)) := by
    rw [select_eq p ds t scores hspec]
    exact List.take_sublist _ _
  have hmatched := hsub.subperm.trans (yielded_subperm p _ _)
  have hmem := fun r (hr : r ∈ select p ds spec t.rows scores) => hmatched.subset hr
  refine ⟨?_, hmem, fun k => ?_, select_length p ds t scores hspec⟩
  · rcases hmatched with ⟨l, hperm, hl⟩
    exact (hperm.map EventRow.id).nodup_iff.1 ((hl.map EventRow.id).nodup (groupById_ids _))
  · have hlength := (isTop_yielded p
      (stratumQuota spec.effectiveN (strata ds spec t.rows scores))
      (matchedEvents ds spec t.rows scores) k).length
    exact (hsub.filter _).length_le.trans_eq hlength

/-- **Every group keeps its quota** exactly when the quotas leave room below the cap. -/
theorem keepsStrata_select_iff (hspec : spec.isStratified = true) :
    KeepsStrata NoOlder (stratumQuota spec.effectiveN (strata ds spec t.rows scores))
        (matchedEvents ds spec t.rows scores) (select p ds spec t.rows scores) ↔
      Quota.kept stratum (stratumQuota spec.effectiveN (strata ds spec t.rows scores))
        (matchedEvents ds spec t.rows scores) ≤ MAX_IMPORT_N := by
  have hdrawn := select_drawn p ds t scores hspec
  constructor
  · intro h
    have hlength := @Quota.length_eq_kept _ _ _ stratum _ _ _
      (fun r hr => List.mem_map_of_mem (hdrawn.mem r hr)) fun k _ => (h.top k).length
    have := hdrawn.length
    omega
  · intro hle
    have hall : select p ds spec t.rows scores =
        yielded p (stratumQuota spec.effectiveN (strata ds spec t.rows scores))
          (matchedEvents ds spec t.rows scores) := by
      have hlength := hdrawn.length
      rw [min_eq_right hle, ← length_yielded p, select_eq p ds t scores hspec] at hlength
      rw [select_eq p ds t scores hspec]
      exact (List.take_sublist _ _).eq_of_length hlength
    refine ⟨hdrawn.once, fun k => ?_⟩
    rw [hall]
    exact isTop_yielded p _ _ k

end Stratified

/-! ## Cases -/

structure Candidate where
  eventId : String
  input : String
  output : Option String
  tags : List String

/-- `text_of`, of the stored text of a JSON value. -/
def textOf : Json → String
  | .str s => s
  | j => j.render

/-- A selected row as a candidate. -/
def candidateOf (r : EventRow) : Candidate where
  eventId := r.id
  input := (r.input.map textOf).getD ""
  output := r.output.map textOf
  tags := r.tags

/-- What a new case takes from outside: the scrubber's tables, the hash and fresh ids. -/
structure ImportEnv where
  unicode : Anon.Unicode
  hashing : Hashing
  newId : ℕ → String

def toItem (env : ImportEnv) (newId datasetId : String) (c : Candidate) : DatasetItem :=
  let scrubbedIn := Anon.scrub env.unicode c.input
  let (output, rOut) :=
    match c.output with
    | some o =>
      let s := Anon.scrub env.unicode o
      (some s.text, s.redactions)
    | none => (none, 0)
  let redactions := scrubbedIn.redactions + rOut
  { id := newId
    datasetId
    -- of the scrubbed text, so that cases that differ in what was scrubbed are duplicates
    inputHash := some (inputFingerprint env.hashing scrubbedIn.text)
    input := scrubbedIn.text
    output
    expected := none
    context := none
    tags := c.tags
    sourceEventId := some c.eventId
    anonymization := .obj [("method", .str "regex"), ("redactions", .num (.int redactions))]
    difficulty := none }

/-- The loop of `prepare`: an item goes in unless its fingerprint was seen. -/
def keepNew (dedupe : Bool) : List String → List DatasetItem → List DatasetItem
  | _, [] => []
  | seen, item :: items =>
    if dedupe then
      match item.inputHash with
      | none => item :: keepNew dedupe seen items
      | some h =>
        if h ∈ seen then keepNew dedupe seen items else item :: keepNew dedupe (h :: seen) items
    else item :: keepNew dedupe seen items

def prepare (env : ImportEnv) (datasetId : String) (candidates : List Candidate) (dedupe : Bool)
    (existing : List String) : List DatasetItem :=
  keepNew dedupe existing (candidates.zipIdx.map fun c => toItem env (env.newId c.2) datasetId c.1)

/-! ## The import -/

/-- The tables an import reads and writes. -/
structure CorpusStore where
  events : EventTable
  scores : List ScoreRow
  datasets : List Dataset
  items : List DatasetItem

namespace CorpusStore

/-- `load_scoped`. -/
def loadScoped (db : CorpusStore) (project : Option String) (id : String) :
    Except StoreError (Option Dataset) :=
  match db.datasets.find? fun d => d.id == id && project.all (fun p => d.projectId == p) with
  | none => .ok none
  | some d => (readTs d.createdAt).map fun _ => some d

/-- `fingerprints`: the hashes of the target set. -/
def fingerprints (db : CorpusStore) (datasetId : String) : List String :=
  (db.items.filter fun i => i.datasetId == datasetId).filterMap DatasetItem.inputHash

/-- `import`. The inserts are one transaction, which `tx` ends: where one of them or the commit
fails, none happened. -/
def importItems (env : ImportEnv) (p : Planner) (db : CorpusStore) (project : Option String)
    (datasetId : String) (spec : ImportSpec) (tx : Except StoreError Unit) :
    Except StoreError ℕ × CorpusStore :=
  match db.loadScoped project datasetId with
  | .error e => (.error e, db)
  | .ok none => (.error (.other ("dataset '" ++ datasetId ++ "' not found")), db)
  | .ok (some ds) =>
    if ds.frozen then
      (.error (.conflict ("dataset '" ++ ds.id ++ "' is frozen; fork it to add cases")), db)
    else
      let candidates := (select p ds spec db.events.rows db.scores).map candidateOf
      let existing := if spec.dedupe then db.fingerprints ds.id else []
      let items := prepare env ds.id candidates spec.dedupe existing
      match tx with
      | .error e => (.error e, db)
      | .ok _ => (.ok items.length, { db with items := db.items ++ items })

theorem loadScoped_id {db : CorpusStore} {project : Option String} {id : String} {ds : Dataset}
    (h : db.loadScoped project id = .ok (some ds)) : ds.id = id := by
  unfold loadScoped at h
  cases hfind : db.datasets.find? fun d => d.id == id && project.all (fun p => d.projectId == p) with
  | none =>
    rw [hfind] at h
    exact nomatch h
  | some d =>
    rw [hfind] at h
    simp only at h
    have hd := List.find?_some hfind
    rw [Bool.and_eq_true, beq_iff_eq] at hd
    cases hread : readTs d.createdAt with
    | error e =>
      rw [hread] at h
      exact nomatch h
    | ok t =>
      rw [hread] at h
      rw [← Option.some.inj (Except.ok.inj h)]
      exact hd.1

end CorpusStore

/-! ## What is inserted -/

/-- Near-duplicates collapse: no fingerprint is there twice, and none was seen before. -/
theorem keepNew_spec (items : List DatasetItem) (seen : List String) :
    ((keepNew true seen items).filterMap DatasetItem.inputHash).Nodup ∧
      ∀ h ∈ (keepNew true seen items).filterMap DatasetItem.inputHash, h ∉ seen := by
  induction items generalizing seen with
  | nil => exact ⟨List.nodup_nil, fun h hh => absurd hh List.not_mem_nil⟩
  | cons item items ih =>
    unfold keepNew
    rw [if_pos rfl]
    cases hhash : item.inputHash with
    | none =>
      simp only
      rw [List.filterMap_cons_none hhash]
      exact ih seen
    | some h =>
      simp only
      by_cases hseen : h ∈ seen
      · rw [if_pos hseen]
        exact ih seen
      · rcases ih (h :: seen) with ⟨hnodup, hfresh⟩
        rw [if_neg hseen, List.filterMap_cons_some hhash]
        refine ⟨List.nodup_cons.2 ⟨fun hmem => hfresh h hmem (List.mem_cons_self ..), hnodup⟩, ?_⟩
        intro h' hh'
        rcases List.mem_cons.1 hh' with rfl | hh'
        · exact hseen
        · exact fun hmem => hfresh h' hh' (List.mem_cons_of_mem _ hmem)

theorem keepNew_sublist (dedupe : Bool) (items : List DatasetItem) (seen : List String) :
    (keepNew dedupe seen items).Sublist items := by
  induction items generalizing seen with
  | nil => exact List.Sublist.refl _
  | cons item items ih =>
    unfold keepNew
    by_cases hd : dedupe = true
    · rw [if_pos hd]
      cases hhash : item.inputHash with
      | none => exact (ih seen).cons_cons item
      | some h =>
        simp only
        by_cases hseen : h ∈ seen
        · rw [if_pos hseen]
          exact (ih seen).cons item
        · rw [if_neg hseen]
          exact (ih _).cons_cons item
    · rw [if_neg hd]
      exact (ih seen).cons_cons item

theorem toItem_inputHash (env : ImportEnv) (newId datasetId : String) (c : Candidate) :
    (toItem env newId datasetId c).inputHash =
      some (inputFingerprint env.hashing (toItem env newId datasetId c).input) := by
  unfold toItem
  cases c.output with
  | none => simp only
  | some o => simp only

theorem toItem_datasetId (env : ImportEnv) (newId datasetId : String) (c : Candidate) :
    (toItem env newId datasetId c).datasetId = datasetId := by
  unfold toItem
  cases c.output with
  | none => simp only
  | some o => simp only

/-- Every item carries the fingerprint of its own input, and names its dataset. -/
theorem prepare_item {env : ImportEnv} {datasetId : String} {candidates : List Candidate}
    {dedupe : Bool} {existing : List String} {item : DatasetItem}
    (h : item ∈ prepare env datasetId candidates dedupe existing) :
    item.datasetId = datasetId ∧ item.inputHash = some (inputFingerprint env.hashing item.input) := by
  rcases List.mem_map.1 ((keepNew_sublist _ _ _).subset h) with ⟨c, -, rfl⟩
  exact ⟨toItem_datasetId .., toItem_inputHash ..⟩

section Import

variable (env : ImportEnv) (p : Planner) (db : CorpusStore) (project : Option String)
  (datasetId : String) (spec : ImportSpec) (tx : Except StoreError Unit)

/-- The items an import adds. -/
def inserted : List DatasetItem :=
  (db.importItems env p project datasetId spec tx).2.items.drop db.items.length

/-- An import adds items, all of one preparation, or leaves the store as it is. -/
theorem importItems_cases :
    (db.importItems env p project datasetId spec tx).2 = db ∨
      ∃ ds, db.loadScoped project datasetId = .ok (some ds) ∧ ds.frozen = false ∧
        (db.importItems env p project datasetId spec tx).2 =
          { db with
            items := db.items ++ prepare env ds.id
              ((select p ds spec db.events.rows db.scores).map candidateOf) spec.dedupe
              (if spec.dedupe then db.fingerprints ds.id else []) } := by
  unfold CorpusStore.importItems
  rcases hload : db.loadScoped project datasetId with e | _ | ds
  · exact Or.inl rfl
  · exact Or.inl rfl
  · simp only
    by_cases hfrozen : ds.frozen = true
    · rw [if_pos hfrozen]
      exact Or.inl rfl
    · rw [if_neg hfrozen]
      cases tx with
      | error e => exact Or.inl rfl
      | ok _ => exact Or.inr ⟨ds, rfl, Bool.eq_false_of_not_eq_true hfrozen, rfl⟩

/-- A frozen dataset is refused, and nothing is inserted. -/
theorem importItems_of_frozen {ds : Dataset}
    (hload : db.loadScoped project datasetId = .ok (some ds)) (hfrozen : ds.frozen = true) :
    db.importItems env p project datasetId spec tx =
      (.error (.conflict ("dataset '" ++ ds.id ++ "' is frozen; fork it to add cases")), db) := by
  unfold CorpusStore.importItems
  rw [hload]
  simp only
  rw [if_pos hfrozen]

/-- Everything that was in the set stays, and what `dedupe` inserts is new to it. -/
theorem importItems_dedupe (hdedupe : spec.dedupe = true) :
    (db.importItems env p project datasetId spec tx).2.items =
        db.items ++ inserted env p db project datasetId spec tx ∧
      ((inserted env p db project datasetId spec tx).filterMap DatasetItem.inputHash).Nodup ∧
        ∀ item ∈ inserted env p db project datasetId spec tx,
          ∃ h, item.inputHash = some h ∧ h ∉ db.fingerprints datasetId := by
  unfold inserted
  rcases importItems_cases env p db project datasetId spec tx with hsame | ⟨ds, hload, -, hadd⟩
  · rw [hsame, List.drop_length, List.append_nil]
    exact ⟨rfl, List.nodup_nil, fun item hitem => absurd hitem List.not_mem_nil⟩
  · have hid := CorpusStore.loadScoped_id hload
    rw [hadd, hid, hdedupe, if_pos rfl]
    simp only [List.drop_left]
    have hspec := keepNew_spec
      (((select p ds spec db.events.rows db.scores).map candidateOf).zipIdx.map fun c =>
        toItem env (env.newId c.2) datasetId c.1) (db.fingerprints datasetId)
    refine ⟨trivial, hspec.1, fun item hitem => ?_⟩
    have hhash := (prepare_item hitem).2
    exact ⟨_, hhash, hspec.2 _ (List.mem_filterMap.2 ⟨item, hitem, hhash⟩)⟩

/-- What an import keeps to. -/
structure ImportKeeps : Prop where
  drawn : ∀ ds, spec.isStratified = true → 0 < strata ds spec db.events.rows db.scores →
    Drawn (max 1 ⌈(spec.effectiveN : ℚ) / strata ds spec db.events.rows db.scores⌉₊)
      (matchedEvents ds spec db.events.rows db.scores)
      (select p ds spec db.events.rows db.scores)
  strata : ∀ ds, spec.isStratified = true → 0 < strata ds spec db.events.rows db.scores →
    (KeepsStrata NoOlder
        (max 1 ⌈(spec.effectiveN : ℚ) / strata ds spec db.events.rows db.scores⌉₊)
        (matchedEvents ds spec db.events.rows db.scores)
        (select p ds spec db.events.rows db.scores) ↔
      Quota.kept stratum
        (max 1 ⌈(spec.effectiveN : ℚ) / strata ds spec db.events.rows db.scores⌉₊)
        (matchedEvents ds spec db.events.rows db.scores) ≤ MAX_IMPORT_N)
  dedupe : spec.dedupe = true →
    (db.importItems env p project datasetId spec tx).2.items =
        db.items ++ inserted env p db project datasetId spec tx ∧
      ((inserted env p db project datasetId spec tx).filterMap DatasetItem.inputHash).Nodup ∧
        ∀ item ∈ inserted env p db project datasetId spec tx,
          ∃ h, item.inputHash = some h ∧ h ∉ db.fingerprints datasetId
  frozen : ∀ ds, db.loadScoped project datasetId = .ok (some ds) → ds.frozen = true →
    db.importItems env p project datasetId spec tx =
      (.error (.conflict ("dataset '" ++ ds.id ++ "' is frozen; fork it to add cases")), db)

end Import

/-! ## Where a group loses rows -/

/-- What a stratified import was to select: of every group the quota of the requested `n`, and the
newest. -/
def Promised (p : Planner) (ds : Dataset) (spec : ImportSpec) (t : EventTable) : Prop :=
  KeepsStrata (fun a b => b.ts ≤ a.ts) (max 1 ⌈(spec.n : ℚ) / strata ds spec t.rows []⌉₊)
    (matchedEvents ds spec t.rows []) (select p ds spec t.rows [])

/-- An engine that changes no order. -/
def inOrder : Planner where
  scan := id
  emit := id
  draw := id
  scan_perm _ := List.Perm.refl _
  emit_perm _ := List.Perm.refl _
  draw_perm _ := List.Perm.refl _

def corpus : Dataset := ⟨"ds", "p1", false, 0⟩

def promptRow (rowid : ℕ) (model : String) (ts : Time) : EventRow where
  rowid
  id := String.ofList (List.replicate rowid 'e')
  projectId := "p1"
  traceId := none
  spanId := none
  parentSpanId := none
  ts
  receivedAt := none
  provider := "openai"
  model
  name := none
  inputTokens := 1
  outputTokens := 1
  cachedInputTokens := none
  reasoningTokens := none
  costUsd := none
  latencyMs := none
  status := .success
  error := none
  input := some (.str "hi")
  output := none
  tags := []
  source := none
  metadata := none

/-- Prompts under the rowids 1, 2, …, with the model and the stamp of each. -/
def promptTable (n : ℕ) (model : ℕ → String) (ts : ℕ → Time) : EventTable where
  rows := (List.range n).map fun i => promptRow (i + 1) (model i) (ts i)
  rowids := by
    rw [List.pairwise_map]
    exact List.pairwise_lt_range.imp fun h => Nat.succ_lt_succ h
  rowids_pos := by
    intro r hr
    rcases List.mem_map.1 hr with ⟨i, -, rfl⟩
    exact Nat.succ_pos i
  ids := by
    rw [List.map_map]
    refine List.nodup_range.map fun i j hij => ?_
    have hlist := congrArg (fun s : String => s.toList.length) hij
    simpa [promptRow] using hlist

/-- Three models with 1667 calls each. -/
def bulk : EventTable :=
  promptTable 5001 (fun i => String.ofList (List.replicate (i / 1667) 'm')) fun i => i

/-- Two calls of one model. -/
def pair : EventTable := promptTable 2 (fun _ => "m") fun i => i

/-- Two calls of one model, the second in the year 10000. -/
def late : EventTable := promptTable 2 (fun _ => "m") fun i => if i = 0 then 0 else 253402300800000000000

def stratifiedSpec (n : ℕ) : ImportSpec where
  strategy := .stratified
  n

/-- Events that are not joined with scores are grouped into themselves. -/
theorem groupById_unscored {rows : List EventRow} (hids : (rows.map EventRow.id).Nodup) :
    groupById (rows.map fun r => (r, none)) = rows := by
  have hkeys : (rows.map fun r => ((r, none) : Joined)).map (fun j => j.1.id) =
      rows.map EventRow.id := by
    rw [List.map_map]
    rfl
  have hnodup : ((rows.map fun r => ((r, none) : Joined)).map fun j => j.1.id).Nodup := by
    rw [hkeys]
    exact hids
  unfold groupById Group.groupsBy
  rw [hkeys, List.Nodup.dedup hids, List.map_map, List.filterMap_map]
  refine (List.filterMap_congr ?_).trans List.filterMap_some
  intro r hr
  have hgroup := Group.filter_key hnodup (List.mem_map_of_mem hr)
  simp only [Function.comp_apply]
  rw [hgroup, List.head?_cons, Option.map_some]

theorem buildWhere_promptRow (n rowid : ℕ) (model : String) (ts : Time) :
    buildWhere corpus (stratifiedSpec n) (promptRow rowid model ts, none) = true := by
  have htext : ((Json.str "hi").render != "") = true := by decide
  simp only [buildWhere, corpus, promptRow, stratifiedSpec, ImportSpec.isExplicit, Option.any_some,
    htext, beq_self_eq_true, List.isEmpty_nil, Bool.not_true, Bool.false_eq_true, if_false,
    Option.all_none, Bool.and_self]
  rfl

theorem matchedEvents_promptTable (n m : ℕ) (model : ℕ → String) (ts : ℕ → Time) :
    matchedEvents corpus (stratifiedSpec n) (promptTable m model ts).rows [] =
      (promptTable m model ts).rows := by
  have hfrom : fromClause (stratifiedSpec n) (promptTable m model ts).rows [] =
      (promptTable m model ts).rows.map fun r => (r, none) := rfl
  have hall : matchedRows corpus (stratifiedSpec n) (promptTable m model ts).rows [] =
      (promptTable m model ts).rows.map fun r => (r, none) := by
    unfold matchedRows
    rw [hfrom, List.filter_eq_self]
    intro j hj
    rcases List.mem_map.1 hj with ⟨r, hr, rfl⟩
    rcases List.mem_map.1 hr with ⟨i, -, rfl⟩
    exact buildWhere_promptRow ..
  unfold matchedEvents
  rw [hall, groupById_unscored (promptTable m model ts).ids]

/-- A promise kept draws the quotas of the requested `n`, below the cap. -/
theorem kept_of_promised {p : Planner} {ds : Dataset} {spec : ImportSpec} {t : EventTable}
    (hspec : spec.isStratified = true) (h : Promised p ds spec t) :
    Quota.kept stratum (max 1 ⌈(spec.n : ℚ) / strata ds spec t.rows []⌉₊)
        (matchedEvents ds spec t.rows []) =
      min MAX_IMPORT_N
        (Quota.kept stratum (stratumQuota spec.effectiveN (strata ds spec t.rows []))
          (matchedEvents ds spec t.rows [])) := by
  rw [← select_length p ds t [] hspec]
  refine (@Quota.length_eq_kept _ _ _ stratum _ _ _ ?_ fun k _ => (h.top k).length).symm
  intro r hr
  exact List.mem_map_of_mem ((select_drawn p ds t [] hspec).mem r hr)

/-- The group of a number of `m`s. -/
def bulkStratum (k : ℕ) : String × Status := (String.ofList (List.replicate k 'm'), .success)

theorem bulkStratum_injective : Function.Injective bulkStratum := by
  intro k k' h
  have hlist := congrArg (fun s : String × Status => s.1.toList.length) h
  simpa [bulkStratum] using hlist

theorem bulk_keys : bulk.rows.map stratum = ((List.range 5001).map (· / 1667)).map bulkStratum := by
  unfold bulk promptTable
  rw [List.map_map, List.map_map]
  rfl

theorem bulk_strata : strata corpus (stratifiedSpec 5000) bulk.rows [] = 3 := by
  have hdedup : ((List.range 5001).map (· / 1667)).dedup.Perm [0, 1, 2] := by
    rw [List.perm_ext_iff_of_nodup (List.nodup_dedup _) (by decide)]
    intro k
    rw [List.mem_dedup, List.mem_map]
    constructor
    · intro h
      rcases h with ⟨i, hi, rfl⟩
      rw [List.mem_range] at hi
      have hlt : i / 1667 < 3 := by omega
      interval_cases i / 1667 <;> decide
    · intro hk
      have hlt : k < 3 := by
        simp only [List.mem_cons, List.not_mem_nil, or_false] at hk
        omega
      exact ⟨1667 * k, List.mem_range.2 (by omega), by omega⟩
  unfold strata bulk
  rw [matchedEvents_promptTable]
  change (bulk.rows.map stratum).dedup.length = 3
  rw [bulk_keys, List.dedup_map_of_injective bulkStratum_injective, List.length_map,
    hdedup.length_eq]
  rfl

/-- No group of `bulk` is larger than its quota. -/
theorem bulk_kept : Quota.kept stratum 1667 bulk.rows = 5001 := by
  have hsmall : ∀ k ∈ bulk.rows.map stratum,
      (Quota.inGroup stratum k bulk.rows).length ≤ 1667 := by
    intro k hk
    rw [bulk_keys] at hk
    rcases List.mem_map.1 hk with ⟨c, -, rfl⟩
    have hlength : (Quota.inGroup stratum (bulkStratum c) bulk.rows).length =
        ((List.range 5001).filter fun i => i / 1667 == c).length := by
      unfold Quota.inGroup bulk promptTable
      rw [List.filter_map, List.length_map]
      refine congrArg List.length (List.filter_congr ?_)
      intro i _
      have hsame : stratum (promptRow (i + 1) (String.ofList (List.replicate (i / 1667) 'm')) i) =
          bulkStratum c ↔ i / 1667 = c := bulkStratum_injective.eq_iff
      exact Bool.eq_iff_iff.2 ((@beq_iff_eq _ instBEqOfDecidableEq _ _ _).trans
        (hsame.trans beq_iff_eq.symm))
    have hsub : (List.range 5001).filter (fun i => i / 1667 == c) ⊆ List.range' (1667 * c) 1667 := by
      intro i hi
      have hc := beq_iff_eq.1 (List.mem_filter.1 hi).2
      rw [List.mem_range'_1]
      omega
    rw [hlength]
    refine ((List.subperm_of_subset (List.nodup_range.filter _) hsub).length_le).trans_eq ?_
    exact List.length_range'
  have hrows : bulk.rows.length = 5001 := by
    unfold bulk promptTable
    rw [List.length_map, List.length_range]
  rw [← @Quota.length_eq_kept _ _ _ stratum _ _ bulk.rows
    (fun r hr => List.mem_map_of_mem hr) fun k hk => ?_, hrows]
  exact (min_eq_left (hsmall k hk)).symm

/-- Of the two calls the one drawn is the older. -/
theorem late_not_promised : ¬ Promised inOrder corpus (stratifiedSpec 1) late := by
  intro h
  have hspec : (stratifiedSpec 1).isStratified = true := by decide
  have hkeeps := (keepsStrata_select_iff inOrder corpus late [] hspec).2 (by decide +kernel)
  have hgroup : Quota.inGroup stratum ("m", .success)
      (matchedEvents corpus (stratifiedSpec 1) late.rows []) =
        [promptRow 1 "m" 0, promptRow 2 "m" 253402300800000000000] := by
    unfold late
    rw [matchedEvents_promptTable]
    rfl
  have hlength := (hkeeps.top ("m", .success)).length
  rcases (h.top ("m", .success)).split with ⟨rest, hperm, hahead⟩
  rcases (hkeeps.top ("m", .success)).split with ⟨rest', hperm', hahead'⟩
  have hquota : stratumQuota (stratifiedSpec 1).effectiveN
      (strata corpus (stratifiedSpec 1) late.rows []) = 1 := by decide +kernel
  rw [hgroup, hquota] at hlength
  rcases List.length_eq_one_iff.1 hlength with ⟨x, hx⟩
  rw [hgroup, hx] at hperm hperm'
  rw [hx] at hahead hahead'
  have hmem := hperm.subset (List.mem_append_left rest (List.mem_singleton_self x))
  rcases List.mem_cons.1 hmem with rfl | hmem
  · -- the older is drawn, so the newer is left out
    have hlate := hperm.mem_iff.2 (List.mem_cons_of_mem _ (List.mem_singleton_self _))
    rcases List.mem_append.1 hlate with heq | hrest
    · exact absurd (congrArg EventRow.rowid (List.mem_singleton.1 heq)) (by decide)
    · exact absurd (hahead _ (List.mem_singleton_self _) _ hrest) (by decide)
  · rw [List.mem_singleton.1 hmem] at hperm' hahead'
    have hearly := hperm'.mem_iff.2 (List.mem_cons_self ..)
    rcases List.mem_append.1 hearly with heq | hrest
    · exact absurd (congrArg EventRow.rowid (List.mem_singleton.1 heq)) (by decide)
    · exact absurd (hahead' _ (List.mem_singleton_self _) _ hrest).1 (by decide +kernel)

end LightTrack.DatasetImport
