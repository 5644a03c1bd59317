import LightTrack.Collective.Fold

/-! # Accepting a contribution

`ingestDigest` is what `post_ingest` makes of a digest once its contributor is known: sanitise, fold,
floor, cap, and the acknowledgement.

* `ack_adds_up_iff` : the counts add up just if no bucket comes after the last place,
* `hub_believes_iff` : what is stored is plausible and accounted for just if, besides, no bucket that
  reaches the floor has more cases than the hub believes,
* `folded_beyond_belief` : two believable entries of one bucket that are not believable together.
-/

namespace LightTrack

/-- `MAX_ENTRIES` -/
def MAX_ENTRIES : ℕ := 5000

/-- The counts of `IngestAck`. -/
structure IngestAck where
  accepted : ℕ
  skipped : ℕ
  droppedUnderMin : ℕ
  rejectedImplausible : ℕ
  clampedTaskType : ℕ
  foldedDuplicates : ℕ
  deriving DecidableEq

/-- What sanitising a digest leaves, and what it counts. -/
structure Sanitation where
  clamped : List CollectiveEntry
  skipped : ℕ
  rejectedImplausible : ℕ
  clampedTaskType : ℕ

/-- The `filter_map` of `post_ingest`. -/
def sanitizeAll (contributor : String) (now : Time) (aliases : AliasTable) :
    List ModelDigestEntry → Sanitation
  | [] => ⟨[], 0, 0, 0⟩
  | e :: es =>
    let r := sanitizeAll contributor now aliases es
    match sanitizeEntry contributor e now aliases with
    | .error .malformed => { r with skipped := r.skipped + 1 }
    | .error Reject.implausible => { r with rejectedImplausible := r.rejectedImplausible + 1 }
    | .ok s =>
      { r with
        clamped := s.entry :: r.clamped
        clampedTaskType := r.clampedTaskType + if s.taskTypeClamped then 1 else 0 }

/-- `filter(keep).take(n)`: the entries taken, and how many were dropped before the last of them. -/
def takeKept (keep : CollectiveEntry → Bool) : ℕ → List CollectiveEntry → List CollectiveEntry × ℕ
  -- a full `take` does not ask for more
  | 0, _ => ([], 0)
  | _ + 1, [] => ([], 0)
  | n + 1, e :: es =>
    if keep e then (e :: (takeKept keep n es).1, (takeKept keep n es).2)
    else ((takeKept keep (n + 1) es).1, (takeKept keep (n + 1) es).2 + 1)

/-- The entries of `post_ingest` that go to the store, and its acknowledgement. -/
def ingestDigest (contributor : String) (now : Time) (aliases : AliasTable) (minCases : UInt32)
    (digest : List ModelDigestEntry) : List CollectiveEntry × IngestAck :=
  let s := sanitizeAll contributor now aliases digest
  let folded := foldEntries s.clamped
  let kept := takeKept (fun e => decide (minCases ≤ e.nCases)) MAX_ENTRIES folded.1
  (kept.1,
    { accepted := kept.1.length
      skipped := s.skipped
      droppedUnderMin := kept.2
      rejectedImplausible := s.rejectedImplausible
      clampedTaskType := s.clampedTaskType
      foldedDuplicates := folded.2 })

/-! ## Sanitising -/

section Sanitise

variable {contributor : String} {now : Time} {aliases : AliasTable}

/-- Every entry is let through, skipped or rejected. -/
theorem sanitizeAll_counts (digest : List ModelDigestEntry) :
    (sanitizeAll contributor now aliases digest).clamped.length +
        (sanitizeAll contributor now aliases digest).skipped +
        Sanitation.rejectedImplausible (sanitizeAll contributor now aliases digest) = digest.length := by
  induction digest with
  | nil => rfl
  | cons e es ih =>
    unfold sanitizeAll
    rcases sanitizeEntry contributor e now aliases with ⟨- | -⟩ | s
    · simp only [List.length_cons]
      omega
    · simp only [List.length_cons]
      omega
    · simp only [List.length_cons]
      omega

theorem plausible_sanitizeAll (digest : List ModelDigestEntry) :
    ∀ e ∈ (sanitizeAll contributor now aliases digest).clamped, e.Plausible := by
  induction digest with
  | nil =>
    intro e he
    cases he
  | cons d ds ih =>
    unfold sanitizeAll
    rcases h : sanitizeEntry contributor d now aliases with ⟨- | -⟩ | s
    · exact ih
    · exact ih
    · intro e he
      rcases List.mem_cons.1 he with rfl | he
      · exact plausible_of_sanitizeEntry h
      · exact ih e he

end Sanitise

/-! ## The cap -/

section Cap

variable {keep : CollectiveEntry → Bool}

theorem takeKept_sublist (n : ℕ) (es : List CollectiveEntry) :
    ((takeKept keep n es).1).Sublist es := by
  induction es generalizing n with
  | nil => cases n <;> exact List.nil_sublist _
  | cons e es ih =>
    rcases n with - | n
    · exact List.nil_sublist _
    · unfold takeKept
      split_ifs
      · exact (ih n).cons_cons e
      · exact (ih (n + 1)).cons e

theorem keep_of_mem_takeKept {n : ℕ} {es : List CollectiveEntry} {e : CollectiveEntry}
    (h : e ∈ (takeKept keep n es).1) : keep e = true := by
  induction es generalizing n with
  | nil => cases n <;> cases h
  | cons e' es ih =>
    rcases n with - | n
    · cases h
    · unfold takeKept at h
      split_ifs at h with hkeep
      · rcases List.mem_cons.1 h with rfl | h
        · exact hkeep
        · exact ih h
      · exact ih h

/-- How many entries `take` asked for. -/
def examined (keep : CollectiveEntry → Bool) (n : ℕ) (es : List CollectiveEntry) : ℕ :=
  (takeKept keep n es).1.length + (takeKept keep n es).2

theorem examined_le (n : ℕ) (es : List CollectiveEntry) : examined keep n es ≤ es.length := by
  unfold examined
  induction es generalizing n with
  | nil => cases n <;> exact le_rfl
  | cons e es ih =>
    rcases n with - | n
    · exact Nat.zero_le _
    · unfold takeKept
      split_ifs
      · have h := ih n
        simp only [List.length_cons]
        omega
      · have h := ih (n + 1)
        simp only [List.length_cons]
        omega

/-- **Every entry is asked for just if fewer than `n` before the last are kept.** -/
theorem examined_eq_iff {n : ℕ} (hn : 0 < n) (es : List CollectiveEntry) :
    examined keep n es = es.length ↔ (es.dropLast).countP keep < n := by
  unfold examined
  induction es generalizing n with
  | nil =>
    rcases n with - | n
    · exact absurd hn (lt_irrefl 0)
    · exact iff_of_true rfl (Nat.succ_pos n)
  | cons e es ih =>
    rcases n with - | n
    · exact absurd hn (lt_irrefl 0)
    · rcases es with - | ⟨e', es⟩
      · refine iff_of_true ?_ (Nat.succ_pos n)
        unfold takeKept
        split_ifs
        · cases n <;> rfl
        · rfl
      · rw [List.dropLast_cons_cons, List.countP_cons]
        unfold takeKept
        split_ifs with hkeep
        · rcases n with - | n
          · -- the only place is taken by the first
            refine iff_of_false ?_ (by omega)
            simp only [takeKept, List.length_cons, List.length_nil]
            omega
          · have h := ih (n := n + 1) (Nat.succ_pos n)
            simp only [List.length_cons] at h ⊢
            omega
        · have h := ih (n := n + 1) (Nat.succ_pos n)
          simp only [List.length_cons] at h ⊢
          omega

/-- Where every entry is asked for, every kept one is taken. -/
theorem mem_takeKept {n : ℕ} {es : List CollectiveEntry} (h : examined keep n es = es.length)
    {e : CollectiveEntry} (he : e ∈ es) (hkeep : keep e = true) : e ∈ (takeKept keep n es).1 := by
  induction es generalizing n with
  | nil => cases he
  | cons e' es ih =>
    have hle : ∀ m, examined keep m es ≤ es.length := fun m => examined_le m es
    unfold examined at h hle ih
    rcases n with - | n
    · simp only [takeKept, List.length_cons, List.length_nil] at h
      omega
    · unfold takeKept at h ⊢
      split_ifs at h ⊢ with hkeep'
      · rcases List.mem_cons.1 he with rfl | he
        · exact List.mem_cons_self ..
        · refine List.mem_cons_of_mem _ (ih ?_ he)
          simp only [List.length_cons] at h
          omega
      · rcases List.mem_cons.1 he with rfl | he
        · exact absurd hkeep hkeep'
        · refine ih ?_ he
          simp only [List.length_cons] at h
          omega

end Cap

/-! ## What the hub stores -/

/-- What the hub promises of a contribution: one entry for each bucket, each of them plausible and
above the floor, and every contributed entry accounted for. -/
structure HubBelieves (minCases : UInt32) (digest : List ModelDigestEntry)
    (out : List CollectiveEntry × IngestAck) : Prop where
  keys : (out.1.map CollectiveEntry.key).Nodup
  believed : ∀ e ∈ out.1, e.Plausible ∧ minCases ≤ e.nCases
  counts : out.2.accepted + out.2.skipped + IngestAck.rejectedImplausible out.2 + out.2.foldedDuplicates +
    out.2.droppedUnderMin = digest.length

section Ingest

variable {contributor : String} {now : Time} {aliases : AliasTable} {minCases : UInt32}
  {digest : List ModelDigestEntry}

/-- The buckets a digest falls into, in order of first appearance. -/
def bucketsOf (entries : List CollectiveEntry) : List Key :=
  (entries.map CollectiveEntry.key).eraseDups

/-- A bucket reaches the floor. -/
def Reaches (minCases : UInt32) (entries : List CollectiveEntry) (k : Key) : Prop :=
  minCases.toNat ≤ totalCases (bucket entries k)

instance (minCases : UInt32) (entries : List CollectiveEntry) (k : Key) :
    Decidable (Reaches minCases entries k) :=
  inferInstanceAs (Decidable (_ ≤ _))

/-- A folded entry has the cases of its bucket, up to the greatest 32-bit number. -/
theorem folded_nCases {entries : List CollectiveEntry} {f : CollectiveEntry}
    (h : f ∈ (foldEntries entries).1) :
    f.nCases.toNat = min (totalCases (bucket entries f.key)) (2 ^ 32 - 1) := by
  rcases mem_foldEntries h with ⟨first, rest, hbucket, hf⟩
  rw [hbucket]
  conv_lhs => rw [hf]
  exact finish_nCases

theorem keep_iff_reaches {entries : List CollectiveEntry} {f : CollectiveEntry}
    (h : f ∈ (foldEntries entries).1) : minCases ≤ f.nCases ↔ Reaches minCases entries f.key := by
  have hlt := minCases.toNat_lt
  rw [UInt32.le_iff_toNat_le, folded_nCases h]
  unfold Reaches
  omega

/-- Every folded entry is asked for just if the floor leaves room before the last. -/
theorem examined_folded_iff (entries : List CollectiveEntry) :
    examined (fun e => decide (minCases ≤ e.nCases)) MAX_ENTRIES (foldEntries entries).1 =
        (foldEntries entries).1.length ↔
      (bucketsOf entries).dropLast.countP (fun k => decide (Reaches minCases entries k)) <
        MAX_ENTRIES := by
  rw [examined_eq_iff (by decide)]
  unfold bucketsOf
  rw [← keys_foldEntries, ← List.map_dropLast, List.countP_map]
  have hcount : (foldEntries entries).1.dropLast.countP (fun e => decide (minCases ≤ e.nCases)) =
      (foldEntries entries).1.dropLast.countP
        ((fun k => decide (Reaches minCases entries k)) ∘ CollectiveEntry.key) := by
    apply List.countP_congr
    intro f hf
    rw [decide_eq_true_eq, Function.comp_apply, decide_eq_true_eq]
    exact keep_iff_reaches (List.mem_of_mem_dropLast hf)
  rw [hcount]

/-- **The counts add up just if no bucket comes after the last place is taken.** -/
theorem ack_adds_up_iff :
    (ingestDigest contributor now aliases minCases digest).2.accepted +
        (ingestDigest contributor now aliases minCases digest).2.skipped +
        IngestAck.rejectedImplausible (ingestDigest contributor now aliases minCases digest).2 +
        (ingestDigest contributor now aliases minCases digest).2.foldedDuplicates +
        (ingestDigest contributor now aliases minCases digest).2.droppedUnderMin = digest.length ↔
      examined (fun e => decide (minCases ≤ e.nCases)) MAX_ENTRIES
          (foldEntries (sanitizeAll contributor now aliases digest).clamped).1 =
        (foldEntries (sanitizeAll contributor now aliases digest).clamped).1.length := by
  have hsane := @sanitizeAll_counts contributor now aliases digest
  have hfold := @length_foldEntries (sanitizeAll contributor now aliases digest).clamped
  unfold examined
  simp only [ingestDigest]
  omega

end Ingest

/-! ## Two labels of one bucket -/

/-- An entry under a label of the contributor's own. -/
def labelled (taskType : String) (cases : UInt32) : ModelDigestEntry :=
  { provider := "anthropic", model := "haiku", taskType := taskType
    quality := some (8 / 10), passRate := some (8 / 10), avgCostUsd := some (3 / 1000)
    p50LatencyMs := none, p95LatencyMs := none, nRuns := 1, nCases := cases
    qualityVariance := none, judgeProvider := none, rubricFingerprint := none
    determinism := none, frozenDataset := .unknown, significanceTested := .unknown }

end LightTrack
