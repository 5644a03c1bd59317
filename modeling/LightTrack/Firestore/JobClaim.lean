import LightTrack.Firestore.JobCommit
import LightTrack.Lib.Selection

/-! # What a claim takes

A claim of the SQL queue takes the oldest claimable job after settling every orphaned cancel.  A
claim of Firestore prefers the queued jobs, takes a stale one by its stamp, and settles twenty
orphans at most.

* `claim_eq_oldest` : the SQL claim,
* `claimJob_eq_pick` : the claim of Firestore,
* `claims_agree_iff` : when the two are one.
-/

namespace LightTrack

open JobTable (claimRow orphanRow claimable)

/-! ## The SQL claim -/

namespace JobTable

/-- The oldest claimable job. -/
def oldest (t : JobTable) (staleBefore : Time) (kinds : List String) : Option Job :=
  Extremum.first Job.createdAt (t.rows.filter (claimable staleBefore kinds))

theorem claimId_sweepOrphans (t : JobTable) (now staleBefore : Time) (kinds : List String) :
    (t.sweepOrphans now staleBefore).claimId staleBefore kinds =
      (t.oldest staleBefore kinds).map Job.id := by
  have hrows : ((t.sweepOrphans now staleBefore).rows.filter (claimable staleBefore kinds)) =
      t.rows.filter (claimable staleBefore kinds) := by
    refine Selection.filter_map_of_fixed (fun j _ => ?_)
    rcases orphanRow_cases now staleBefore j with hsame | ⟨hcancelling, hrow⟩
    · exact .inl hsame
    · rw [hrow]
      exact .inr ⟨by simp [claimable, hcancelling], by simp [claimable]⟩
  unfold claimId
  rw [hrows]
  rfl

theorem mem_of_oldest {t : JobTable} {staleBefore : Time} {kinds : List String} {j : Job}
    (h : t.oldest staleBefore kinds = some j) :
    j ∈ t.rows ∧ claimable staleBefore kinds j = true :=
  List.mem_filter.1 (Extremum.mem_of_first h)

/-- A claim takes the oldest claimable job, and settles every orphan. -/
theorem claim_eq_oldest (t : JobTable) (now staleBefore : Time) (kinds : List String) :
    (t.claim now staleBefore kinds).1 = (t.oldest staleBefore kinds).map (claimRow now) ∧
      (t.claim now staleBefore kinds).2.rows = t.rows.map fun j =>
        if (t.oldest staleBefore kinds).map Job.id = some j.id then claimRow now j
        else orphanRow now staleBefore j := by
  unfold claim
  simp only [claimId_sweepOrphans]
  cases hold : t.oldest staleBefore kinds with
  | none => exact ⟨rfl, rfl⟩
  | some j =>
    rcases mem_of_oldest hold with ⟨hj, hclaimable⟩
    have hsame : orphanRow now staleBefore j = j := by
      rcases orphanRow_cases now staleBefore j with hsame | ⟨hcancelling, -⟩
      · exact hsame
      · rcases status_of_claimable hclaimable with hst | hst <;> rw [hst] at hcancelling <;>
          cases hcancelling
    constructor
    · refine Keyed.find_eq_some_iff.2 ⟨Keyed.mem_update.2 ⟨j, ?_, if_pos rfl⟩, rfl⟩
      exact Keyed.mem_update.2 ⟨j, hj, hsame⟩
    · show (t.rows.map (orphanRow now staleBefore)).map _ = _
      rw [List.map_map]
      refine List.map_congr_left (fun j' hj' => ?_)
      simp only [Function.comp_apply, orphanRow_id, Option.map_some, Option.some.injEq]
      by_cases hid : j'.id = j.id
      · rw [if_pos hid, if_pos hid.symm, t.eq_of_key hj' hj hid, hsame]
      · rw [if_neg hid, if_neg (Ne.symm hid)]

end JobTable

namespace Firestore

/-! ## The sweep -/

theorem mem_commitUpdate {docs : JobDocs} {d' : JobDoc} {w : JobWrite} {u : ℕ}
    (hd' : d' ∈ docs.rows) {name : String} (hne : d'.name ≠ name) :
    d' ∈ (commitUpdate docs name w u).2.rows := by
  unfold commitUpdate
  split_ifs
  · exact List.mem_map.2 ⟨d', hd', if_neg hne⟩
  · exact hd'

/-- Commits to documents that were read before the first of them all land. -/
theorem foldl_commitUpdate (w : JobWrite) (ds : List JobDoc) {docs : JobDocs}
    (hds : ∀ d ∈ ds, d ∈ docs.rows) (hnames : (ds.map JobDoc.name).Nodup) :
    (jobs (ds.foldl (fun docs d => (commitUpdate docs d.name w d.updateTime).2) docs)).rows =
      (jobs docs).rows.map fun j => if j.id ∈ ds.map JobDoc.name then w.fields j else j := by
  induction ds generalizing docs with
  | nil => simp
  | cons d ds ih =>
    rw [List.map_cons, List.nodup_cons] at hnames
    rw [List.forall_mem_cons] at hds
    have hrest : ∀ d' ∈ ds, d' ∈ (commitUpdate docs d.name w d.updateTime).2.rows := by
      intro d' hd'
      refine mem_commitUpdate (hds.2 d' hd') ?_
      exact fun heq => hnames.1 (heq ▸ List.mem_map_of_mem hd')
    rw [List.foldl_cons, ih hrest hnames.2, (commitUpdate_landed hds.1 w).2]
    show ((jobs docs).rows.map _).map _ = _
    rw [List.map_map]
    refine List.map_congr_left (fun j _ => ?_)
    by_cases hid : j.id = d.name
    · have hnot : (w.fields j).id ∉ ds.map JobDoc.name := by
        rw [w.id_fields, hid]
        exact hnames.1
      simp only [Function.comp_apply]
      rw [if_pos hid, if_neg hnot, List.map_cons, hid,
        if_pos (List.mem_cons_self ..)]
    · simp [hid]

/-- The names that a sweep settles. -/
def settled (stale : Time) (docs : JobDocs) : List String :=
  (orphanDocs stale docs).map JobDoc.name

theorem mem_orphanDocs {stale : Time} {docs : JobDocs} {d : JobDoc}
    (h : d ∈ orphanDocs stale docs) :
    d ∈ docs.rows ∧ staleUnder .cancelling stale d.fields = true :=
  List.mem_filter.1 (List.mem_mergeSort.1 (List.mem_of_mem_take h))

/-- The names of all orphans, in the order of the index. -/
def orphanNames (stale : Time) (docs : JobDocs) : List String :=
  ((docs.rows.filter fun d => staleUnder .cancelling stale d.fields).mergeSort fun a b =>
    decide (stampKey a.fields ≤ stampKey b.fields)).map JobDoc.name

theorem settled_eq_take (stale : Time) (docs : JobDocs) :
    settled stale docs = (orphanNames stale docs).take 20 := by
  unfold settled orphanDocs orphanNames
  rw [List.map_take]

theorem nodup_orphanNames (stale : Time) (docs : JobDocs) : (orphanNames stale docs).Nodup := by
  unfold orphanNames
  refine ((List.mergeSort_perm _ _).map JobDoc.name).nodup_iff.2 ?_
  exact docs.keys.sublist (List.filter_sublist.map _)

theorem mem_orphanNames {stale : Time} {docs : JobDocs} {name : String} :
    name ∈ orphanNames stale docs ↔
      ∃ j ∈ (jobs docs).rows, staleUnder .cancelling stale j = true ∧ j.id = name := by
  unfold orphanNames
  constructor
  · intro h
    rcases List.mem_map.1 h with ⟨d, hd, hname⟩
    rcases List.mem_filter.1 (List.mem_mergeSort.1 hd) with ⟨hrow, horphan⟩
    exact ⟨d.fields, List.mem_map_of_mem hrow, horphan, hname⟩
  · rintro ⟨j, hj, horphan, hid⟩
    rcases List.mem_map.1 hj with ⟨d, hrow, rfl⟩
    exact List.mem_map.2 ⟨d, List.mem_mergeSort.2 (List.mem_filter.2 ⟨hrow, horphan⟩), hid⟩

theorem settleOrphanedCancels_rows (docs : JobDocs) (now stale : Time) :
    (jobs (settleOrphanedCancels docs now stale)).rows = (jobs docs).rows.map fun j =>
      if j.id ∈ settled stale docs then (settleWrite now).fields j else j := by
  refine foldl_commitUpdate (settleWrite now) _ (fun d hd => (mem_orphanDocs hd).1) ?_
  show (settled stale docs).Nodup
  rw [settled_eq_take]
  exact (nodup_orphanNames stale docs).sublist (List.take_sublist 20 _)

theorem staleUnder_of_settled {stale : Time} {docs : JobDocs} {j : Job} (hj : j ∈ (jobs docs).rows)
    (h : j.id ∈ settled stale docs) : staleUnder .cancelling stale j = true := by
  rcases List.mem_map.1 h with ⟨d, hd, hid⟩
  rcases mem_orphanDocs hd with ⟨hrow, horphan⟩
  have hsame : d.fields = j := (jobs docs).eq_of_key (List.mem_map_of_mem hrow) hj hid
  exact hsame ▸ horphan

/-- Every orphan is settled when there are at most twenty. -/
theorem all_settled_iff {stale : Time} {docs : JobDocs} :
    (∀ j ∈ (jobs docs).rows, staleUnder .cancelling stale j = true → j.id ∈ settled stale docs) ↔
      ((jobs docs).rows.filter (staleUnder .cancelling stale)).length ≤ 20 := by
  have hlength : (orphanNames stale docs).length =
      ((jobs docs).rows.filter (staleUnder .cancelling stale)).length := by
    unfold orphanNames
    rw [List.length_map, List.length_mergeSort, jobs_rows, List.filter_map, List.length_map]
    rfl
  rw [← hlength, ← Selection.forall_mem_take_iff (nodup_orphanNames stale docs),
    ← settled_eq_take]
  constructor
  · intro h name hname
    rcases mem_orphanNames.1 hname with ⟨j, hj, horphan, rfl⟩
    exact h j hj horphan
  · intro h j hj horphan
    exact h j.id (mem_orphanNames.2 ⟨j, hj, horphan, rfl⟩)

/-! ## The candidate -/

/-- The queued jobs of the kinds. -/
def queuedJobs (t : JobTable) (kinds : List String) : List Job :=
  t.rows.filter fun j => j.status == .queued && ofKinds kinds j

/-- The running jobs of the kinds under a stale stamp. -/
def staleJobs (t : JobTable) (stale : Time) (kinds : List String) : List Job :=
  t.rows.filter fun j => staleUnder .running stale j && ofKinds kinds j

/-- The job that a claim picks. -/
def pick (t : JobTable) (stale : Time) (kinds : List String) : Option Job :=
  (Extremum.first (fun j => (toLex (j.createdAt, j.id) : Time ×ₗ String)) (queuedJobs t kinds)).or
    (Extremum.first stampKey (staleJobs t stale kinds))

theorem candidate_fields (docs : JobDocs) (stale : Time) (kinds : List String) :
    (candidate docs stale kinds).map JobDoc.fields = pick (jobs docs) stale kinds := by
  unfold candidate pick oldestQueued oldestStale queuedJobs staleJobs
  rw [jobs_rows, List.filter_map, List.filter_map, Extremum.first_map, Extremum.first_map,
    Option.map_or]
  rfl

theorem mem_of_candidate {docs : JobDocs} {stale : Time} {kinds : List String} {d : JobDoc}
    (h : candidate docs stale kinds = some d) : d ∈ docs.rows := by
  rcases Option.or_eq_some_iff.1 h with hqueued | ⟨-, hstale⟩
  · exact (List.mem_filter.1 (Extremum.mem_of_first hqueued)).1
  · exact (List.mem_filter.1 (Extremum.mem_of_first hstale)).1

theorem filter_settled (docs : JobDocs) (now stale : Time) {p : Job → Bool}
    (hp : ∀ j, p j = true → j.status = .queued ∨ j.status = .running) :
    (jobs (settleOrphanedCancels docs now stale)).rows.filter p = (jobs docs).rows.filter p := by
  rw [settleOrphanedCancels_rows]
  refine Selection.filter_map_of_fixed (fun j hj => ?_)
  split_ifs with hsettled
  · right
    have horphan := staleUnder_of_settled hj hsettled
    simp only [staleUnder, Bool.and_eq_true, beq_iff_eq] at horphan
    constructor
    · by_contra h
      rcases hp j (by simpa using h) with hst | hst <;> rw [hst] at horphan <;> cases horphan.1
    · by_contra h
      rcases hp _ (by simpa using h) with hst | hst <;> cases hst
  · exact .inl rfl

/-- The sweep does not change what is picked. -/
theorem pick_settled (docs : JobDocs) (now stale : Time) (kinds : List String) :
    pick (jobs (settleOrphanedCancels docs now stale)) stale kinds =
      pick (jobs docs) stale kinds := by
  unfold pick queuedJobs staleJobs
  rw [filter_settled docs now stale, filter_settled docs now stale]
  · intro j hj
    simp only [staleUnder, Bool.and_eq_true, beq_iff_eq] at hj
    exact .inr hj.1.1
  · intro j hj
    simp only [Bool.and_eq_true, beq_iff_eq] at hj
    exact .inl hj.1

theorem mem_of_pick {t : JobTable} {stale : Time} {kinds : List String} {j : Job}
    (h : pick t stale kinds = some j) : j ∈ t.rows := by
  rcases Option.or_eq_some_iff.1 h with hqueued | ⟨-, hstale⟩
  · exact (List.mem_filter.1 (Extremum.mem_of_first hqueued)).1
  · exact (List.mem_filter.1 (Extremum.mem_of_first hstale)).1

theorem claimWrite_fields (now : Time) (j : Job) :
    (claimWrite now (j.status == .running)).fields j = claimRow now j := by
  unfold claimWrite claimRow
  simp

/-- A claim of Firestore takes what it picks, and settles twenty orphans at most. -/
theorem claimJob_eq_pick (docs : JobDocs) (now staleBefore : Time) (kinds : List String) :
    (claimJob docs now staleBefore kinds).1 =
        (pick (jobs docs) staleBefore kinds).map (claimRow now) ∧
      (jobs (claimJob docs now staleBefore kinds).2).rows = (jobs docs).rows.map fun j =>
        if (pick (jobs docs) staleBefore kinds).map Job.id = some j.id then claimRow now j
        else if j.id ∈ settled staleBefore docs then (settleWrite now).fields j else j := by
  have hpick := (candidate_fields (settleOrphanedCancels docs now staleBefore) staleBefore
    kinds).trans (pick_settled docs now staleBefore kinds)
  have hrows := settleOrphanedCancels_rows docs now staleBefore
  unfold claimJob
  generalize settleOrphanedCancels docs now staleBefore = docs' at hpick hrows ⊢
  cases hcandidate : candidate docs' staleBefore kinds with
  | none =>
    rw [hcandidate] at hpick
    have hround : claimRound now staleBefore kinds docs' = (some none, docs') := by
      simp only [claimRound, hcandidate]
    rw [rounds_of_answer (congrArg Prod.fst hround), hround, ← hpick]
    refine ⟨rfl, ?_⟩
    rw [hrows]
    rfl
  | some d =>
    rw [hcandidate] at hpick
    have hd := mem_of_candidate hcandidate
    rcases commitUpdate_landed hd (claimWrite now (d.fields.status == .running)) with
      ⟨hlanded, hjobs⟩
    have hround : claimRound now staleBefore kinds docs' =
        (some (some (claimRow now d.fields)), (commitUpdate docs' d.name
          (claimWrite now (d.fields.status == .running)) d.updateTime).2) := by
      simp [claimRound, hcandidate, hlanded, claimWrite_fields]
    rw [rounds_of_answer (congrArg Prod.fst hround), hround, ← hpick]
    refine ⟨rfl, ?_⟩
    rw [hjobs]
    show (jobs docs').rows.map _ = _
    rw [hrows, List.map_map]
    have hmem := mem_of_pick hpick.symm
    refine List.map_congr_left (fun j hj => ?_)
    have hkeep : (if j.id ∈ settled staleBefore docs then (settleWrite now).fields j else j).id =
        j.id := by
      split_ifs <;> rfl
    show (if (if j.id ∈ settled staleBefore docs then (settleWrite now).fields j else j).id =
      d.name then _ else _) = if some d.fields.id = some j.id then _ else _
    rw [hkeep]
    by_cases hid : j.id = d.fields.id
    · -- the row is the candidate, before the sweep and after it
      have hsame : j = d.fields := (jobs docs).eq_of_key hj hmem hid
      have hswept : (if j.id ∈ settled staleBefore docs then (settleWrite now).fields j else j) =
          d.fields := by
        refine (jobs docs').eq_of_key ?_ (List.mem_map_of_mem hd) (hkeep.trans hid)
        rw [hrows]
        exact List.mem_map_of_mem hj
      have hname : j.id = d.name := hid
      rw [if_pos hname, if_pos (congrArg some hid.symm)]
      dsimp only
      rw [hswept, claimWrite_fields, hsame]
    · have hname : ¬ j.id = d.name := hid
      rw [if_neg hname, if_neg fun h => hid (Option.some.inj h).symm]

/-! ## When the two claims are one -/

theorem orphanRow_eq (now stale : Time) (j : Job) :
    orphanRow now stale j =
      if staleUnder .cancelling stale j then (settleWrite now).fields j else j := rfl

/-- The claims are one when they pick the same job and the sweep of Firestore gets to every
orphan. -/
theorem claims_agree_iff (docs : JobDocs) (now staleBefore : Time) (kinds : List String) :
    Prod.map id jobs (claimJob docs now staleBefore kinds) =
        (jobs docs).claim now staleBefore kinds ↔
      pick (jobs docs) staleBefore kinds = (jobs docs).oldest staleBefore kinds ∧
        ((jobs docs).rows.filter (staleUnder .cancelling staleBefore)).length ≤ 20 := by
  rcases claimJob_eq_pick docs now staleBefore kinds with ⟨hanswer, hrows⟩
  rcases (jobs docs).claim_eq_oldest now staleBefore kinds with ⟨hanswer', hrows'⟩
  rw [← all_settled_iff]
  constructor
  · intro h
    have hpicked : (pick (jobs docs) staleBefore kinds).map (claimRow now) =
        ((jobs docs).oldest staleBefore kinds).map (claimRow now) :=
      hanswer.symm.trans ((congrArg Prod.fst h).trans hanswer')
    have hids : (pick (jobs docs) staleBefore kinds).map Job.id =
        ((jobs docs).oldest staleBefore kinds).map Job.id := by
      have hcomp := congrArg (Option.map Job.id) hpicked
      rw [Option.map_map, Option.map_map] at hcomp
      exact hcomp
    have hsame : pick (jobs docs) staleBefore kinds = (jobs docs).oldest staleBefore kinds :=
      (jobs docs).eq_of_map_key (fun _ => mem_of_pick) (fun _ h => (JobTable.mem_of_oldest h).1)
        hids
    refine ⟨hsame, ?_⟩
    intro j hj horphan
    have htables : (jobs (claimJob docs now staleBefore kinds).2).rows =
        ((jobs docs).claim now staleBefore kinds).2.rows :=
      congrArg Keyed.rows (congrArg Prod.snd h)
    rw [hrows, hrows', hsame] at htables
    have hrow := List.map_inj_left.1 htables j hj
    have hcancelling : j.status = .cancelling := by
      simp only [staleUnder, Bool.and_eq_true, beq_iff_eq] at horphan
      exact horphan.1
    have hnot : ((jobs docs).oldest staleBefore kinds).map Job.id ≠ some j.id := by
      intro hpick
      rcases Option.map_eq_some_iff.1 hpick with ⟨j', hold, hid⟩
      rcases JobTable.mem_of_oldest hold with ⟨hj', hclaimable⟩
      rw [(jobs docs).eq_of_key hj' hj hid] at hclaimable
      rcases JobTable.status_of_claimable hclaimable with hst | hst <;> rw [hst] at hcancelling <;>
        cases hcancelling
    by_contra hsettled
    rw [if_neg hnot, if_neg hnot, if_neg hsettled, orphanRow_eq, if_pos horphan] at hrow
    -- the orphan is left as it was by one and cancelled by the other
    have hstatus := congrArg Job.status hrow
    rw [hcancelling] at hstatus
    cases hstatus
  · rintro ⟨hsame, hall⟩
    refine Prod.ext ?_ (Keyed.ext ?_)
    · exact hanswer.trans (hsame ▸ hanswer'.symm)
    · show (jobs (claimJob docs now staleBefore kinds).2).rows = _
      rw [hrows, hrows', hsame]
      refine List.map_congr_left (fun j hj => ?_)
      split_ifs with hpicked hsettled
      · rfl
      · rw [orphanRow_eq, if_pos (staleUnder_of_settled hj hsettled)]
      · rw [orphanRow_eq, if_neg fun horphan => hsettled (hall j hj horphan)]

end Firestore

end LightTrack
