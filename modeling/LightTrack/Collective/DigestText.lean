import LightTrack.Collective.Sanitize
import LightTrack.Lib.Decimal
import LightTrack.Lib.Delimited
import LightTrack.Lib.Extremum

/-! # The text a contribution is known by

A push is skipped when the hub already holds a digest of the same hash.  What is hashed is a text of
delimited fields, a line for each entry.

* `entry_of_plain`, `line_of_not_plain` : whose line is of no other entry,
* `tellsContent_iff` : whose text is of no other digest,
* `text_eq_iff` : two digests without separators in their texts,
* `digest_gates` : when the hash gates on content,
* `moved_separator` : two digests of one text.
-/

namespace LightTrack

/-! ## Definitions -/

/-- `CollectiveDigest` -/
structure CollectiveDigest where
  schemaVersion : UInt32
  contributorId : String
  generatedAt : Time
  minCases : UInt32
  projectsIncluded : UInt32
  projectsExcluded : UInt32
  bucketsWithheld : UInt32
  entries : List ModelDigestEntry

/-- `Coverage::as_str` -/
def Coverage.asStr : Coverage → String
  | all => "all"
  | mixed => "mixed"
  | none => "none"
  | unknown => "unknown"

/-- `{:.9}` of a number: nine decimals, ties to even. -/
def fixed9 (q : ℚ) : String :=
  let scaled := |q| * 1000000000
  let low := ⌊scaled⌋.toNat
  let rest := scaled - low
  let n := if rest < 1 / 2 then low else if 1 / 2 < rest then low + 1 else low + low % 2
  (if q < 0 then "-" else "") ++ toString (n / 1000000000) ++ "." ++
    String.ofList (Decimal.fixed 9 (n % 1000000000))

/-- `{:.9}` -/
def figure9 : WireFigure → String
  | some q => fixed9 q
  | none => "NaN"

/-- `{:?}` of an optional number. -/
def debugOption : Option ℕ → String
  | some n => "Some(" ++ toString n ++ ")"
  | none => "None"

namespace ModelDigestEntry

/-- The fields of an entry's line that are ended by a separator, and the last one. -/
def fields (e : ModelDigestEntry) : List String × String :=
  ([e.provider, e.model, e.taskType, figure9 e.quality, figure9 e.passRate, figure9 e.avgCostUsd,
    debugOption e.p50LatencyMs, debugOption e.p95LatencyMs, toString e.nRuns.toNat,
    toString e.nCases.toNat, (e.qualityVariance.map figure9).getD "", e.judgeProvider.getD "",
    e.rubricFingerprint.getD "", e.determinism.getD "", e.frozenDataset.asStr],
    e.significanceTested.asStr)

/-- The line of an entry. -/
def line (e : ModelDigestEntry) : String :=
  String.join (e.fields.1.map (· ++ "|")) ++ e.fields.2 ++ "\n"

/-- The order of the lines. -/
def key (e : ModelDigestEntry) : Key := keyOf e.provider e.model e.taskType

end ModelDigestEntry

namespace CollectiveDigest

/-- The line about the digest itself. -/
def header (d : CollectiveDigest) : String :=
  "v" ++ toString d.schemaVersion.toNat ++ "|k" ++ toString d.minCases.toNat ++ "|in" ++
    toString d.projectsIncluded.toNat ++ "|ex" ++ toString d.projectsExcluded.toNat ++ "\n"

/-- The entries in the order of their keys; entries of one key stay in theirs. -/
def sorted (d : CollectiveDigest) : List ModelDigestEntry :=
  d.entries.mergeSort fun a b => decide (a.key ≤ b.key)

/-- What `digest_sha256` hashes. -/
def text (d : CollectiveDigest) : String := d.header ++ String.join (d.sorted.map (·.line))

end CollectiveDigest

/-- `digest_sha256` -/
def digestSha256 (sha256 : String → String) (d : CollectiveDigest) : String := sha256 d.text

/-- `ContributionStatus` -/
inductive ContributionStatus where
  | sent
  | rejected
  | failed
  deriving DecidableEq

/-- `ContributionStatus::landed` -/
def ContributionStatus.landed (s : ContributionStatus) : Bool := s == .sent

/-- The part of a ledger row that a push is gated on. -/
structure ContributionRecord where
  status : ContributionStatus
  digestSha256 : String

/-- `unchanged_since_last`: whether a push of the hash is skipped, after the last one to the hub. -/
def unchangedSinceLast (last : Option ContributionRecord) (hash : String) : Bool :=
  last.any fun c => c.status.landed && c.digestSha256 == hash

/-! ## Content -/

/-- An entry with its figures at nine decimals. -/
structure RoundedEntry where
  provider : String
  model : String
  taskType : String
  quality : String
  passRate : String
  avgCostUsd : String
  p50LatencyMs : Option ℕ
  p95LatencyMs : Option ℕ
  nRuns : UInt32
  nCases : UInt32
  qualityVariance : Option String
  judgeProvider : Option String
  rubricFingerprint : Option String
  determinism : Option String
  frozenDataset : Coverage
  significanceTested : Coverage

/-- The entry at nine decimals. -/
def ModelDigestEntry.rounded (e : ModelDigestEntry) : RoundedEntry where
  provider := e.provider
  model := e.model
  taskType := e.taskType
  quality := figure9 e.quality
  passRate := figure9 e.passRate
  avgCostUsd := figure9 e.avgCostUsd
  p50LatencyMs := e.p50LatencyMs
  p95LatencyMs := e.p95LatencyMs
  nRuns := e.nRuns
  nCases := e.nCases
  qualityVariance := e.qualityVariance.map figure9
  judgeProvider := e.judgeProvider
  rubricFingerprint := e.rubricFingerprint
  determinism := e.determinism
  frozenDataset := e.frozenDataset
  significanceTested := e.significanceTested

/-- The key of the entry. -/
def RoundedEntry.key (e : RoundedEntry) : Key := keyOf e.provider e.model e.taskType

/-- The same evidence: the same envelope, and the same entries in any order. -/
structure CollectiveDigest.SameContent (d d' : CollectiveDigest) : Prop where
  schemaVersion : d.schemaVersion = d'.schemaVersion
  minCases : d.minCases = d'.minCases
  projectsIncluded : d.projectsIncluded = d'.projectsIncluded
  projectsExcluded : d.projectsExcluded = d'.projectsExcluded
  entries : (d.entries.map (·.rounded)).Perm (d'.entries.map (·.rounded))

/-- The text of the digest tells its content from any other. -/
def CollectiveDigest.TellsContent (d : CollectiveDigest) : Prop :=
  ∀ d' : CollectiveDigest, d.text = d'.text ↔ d.SameContent d'

/-- A tag that is recorded, and is a text without a separator. -/
def PlainTag (tag : Option String) : Prop := ∃ s, tag = some s ∧ s ≠ "" ∧ '|' ∉ s.toList

namespace ModelDigestEntry

/-- No text of the entry holds a separator, and its tags are all recorded. -/
structure Plain (e : ModelDigestEntry) : Prop where
  provider : '|' ∉ e.provider.toList
  model : '|' ∉ e.model.toList
  taskType : '|' ∉ e.taskType.toList
  judgeProvider : PlainTag e.judgeProvider
  rubricFingerprint : PlainTag e.rubricFingerprint
  determinism : PlainTag e.determinism

end ModelDigestEntry

/-! ## Numbers in a line -/

theorem toString_nat_toList (n : ℕ) : (toString n).toList = Nat.toDigits 10 n := by
  change (Nat.repr n).toList = _
  rw [Nat.repr_eq_ofList_toDigits, String.toList_ofList]

theorem toString_nat_inj {n m : ℕ} (h : toString n = toString m) : n = m := by
  have hlist := congrArg String.toList h
  rw [toString_nat_toList, toString_nat_toList] at hlist
  rw [← Nat.ofDigitChars_ten_toDigits (n := n), hlist, Nat.ofDigitChars_ten_toDigits]

theorem isDigit_toString_nat {n : ℕ} {c : Char} (hc : c ∈ (toString n).toList) :
    c.isDigit = true := by
  rw [toString_nat_toList] at hc
  exact Nat.isDigit_of_mem_toDigits (by omega) le_rfl hc

theorem toString_nat_free (n : ℕ) : '|' ∉ (toString n).toList := fun hc =>
  absurd (isDigit_toString_nat hc) (by decide)

/-- A number is written with digits, a point and a sign. -/
theorem fixed9_chars {q : ℚ} {c : Char} (hc : c ∈ (fixed9 q).toList) :
    c = '-' ∨ c = '.' ∨ c.isDigit = true := by
  unfold fixed9 at hc
  simp only [String.toList_append, List.mem_append, String.toList_ofList] at hc
  rcases hc with ((hc | hc) | hc) | hc
  · split_ifs at hc
    · exact .inl (List.mem_singleton.1 hc)
    · exact absurd hc List.not_mem_nil
  · exact .inr (.inr (isDigit_toString_nat hc))
  · exact .inr (.inl (List.mem_singleton.1 hc))
  · exact .inr (.inr (Decimal.isDigits_fixed _ _ c hc))

theorem figure9_free (w : WireFigure) : '|' ∉ (figure9 w).toList := by
  cases w with
  | none => decide
  | some q =>
    intro hc
    rcases fixed9_chars hc with h | h | h <;> exact absurd h (by decide)

theorem figure9_ne (w : WireFigure) : figure9 w ≠ "" := by
  cases w with
  | none => decide
  | some q =>
    intro h
    have hpoint : '.' ∈ (fixed9 q).toList := by
      unfold fixed9
      simp
    have hempty : (fixed9 q).toList = [] := congrArg String.toList h
    rw [hempty] at hpoint
    exact absurd hpoint List.not_mem_nil

theorem debugOption_free (o : Option ℕ) : '|' ∉ (debugOption o).toList := by
  cases o with
  | none => decide
  | some n =>
    unfold debugOption
    simp only [String.toList_append, List.mem_append, not_or]
    exact ⟨⟨by decide, toString_nat_free n⟩, by decide⟩

theorem debugOption_inj {o o' : Option ℕ} (h : debugOption o = debugOption o') : o = o' := by
  have hsome : ∀ n : ℕ, debugOption (some n) ≠ debugOption none := by
    intro n hn
    have hhead := congrArg (fun s : String => s.toList.head?) hn
    simp [debugOption] at hhead
  cases o with
  | none =>
    cases o' with
    | none => rfl
    | some n => exact absurd h.symm (hsome n)
  | some n =>
    cases o' with
    | none => exact absurd h (hsome n)
    | some m =>
      have hlist := congrArg String.toList h
      simp only [debugOption, String.toList_append] at hlist
      have hdigits := List.append_cancel_left (List.append_cancel_right hlist)
      rw [toString_nat_inj (String.toList_injective hdigits)]

theorem asStr_free (c : Coverage) : '|' ∉ c.asStr.toList := by
  cases c <;> decide

theorem asStr_inj {c c' : Coverage} (h : c.asStr = c'.asStr) : c = c' := by
  cases c <;> cases c' <;> first | rfl | exact absurd h (by decide)

/-! ## Lines as records -/

/-- The fields of a line, as records have them. -/
def ModelDigestEntry.record (e : ModelDigestEntry) : List (List Char) × List Char :=
  (e.fields.1.map String.toList, e.fields.2.toList)

theorem toList_join_map {α : Type*} (f : α → String) (l : List α) :
    (String.join (l.map f)).toList = l.flatMap fun a => (f a).toList := by
  induction l with
  | nil => rfl
  | cons a l ih =>
    rw [List.map_cons, String.join_cons, String.toList_append, ih, List.flatMap_cons]

theorem ModelDigestEntry.toList_line (e : ModelDigestEntry) :
    e.line.toList = Delimited.record '|' '\n' e.record := by
  unfold line Delimited.record Delimited.frame record
  rw [String.toList_append, String.toList_append, toList_join_map, List.append_assoc,
    List.flatMap_map]
  simp only [String.toList_append]
  rfl

namespace ModelDigestEntry

variable {e e' : ModelDigestEntry}

/-- No text of the entry holds a separator. -/
structure Free (e : ModelDigestEntry) : Prop where
  provider : '|' ∉ e.provider.toList
  model : '|' ∉ e.model.toList
  taskType : '|' ∉ e.taskType.toList
  judgeProvider : '|' ∉ (e.judgeProvider.getD "").toList
  rubricFingerprint : '|' ∉ (e.rubricFingerprint.getD "").toList
  determinism : '|' ∉ (e.determinism.getD "").toList

theorem Free.clean (h : e.Free) : Delimited.Clean '|' '\n' 15 e.record := by
  refine ⟨rfl, ?_, ?_⟩
  · intro f hf
    obtain ⟨t, ht, rfl⟩ := List.mem_map.1 hf
    simp only [fields, List.mem_cons, List.not_mem_nil, or_false] at ht
    rcases ht with
      rfl | rfl | rfl | rfl | rfl | rfl | rfl | rfl | rfl | rfl | rfl | rfl | rfl | rfl | rfl
    · exact h.provider
    · exact h.model
    · exact h.taskType
    · exact figure9_free _
    · exact figure9_free _
    · exact figure9_free _
    · exact debugOption_free _
    · exact debugOption_free _
    · exact toString_nat_free _
    · exact toString_nat_free _
    · cases e.qualityVariance with
      | none => decide
      | some w => exact figure9_free w
    · exact h.judgeProvider
    · exact h.rubricFingerprint
    · exact h.determinism
    · exact asStr_free _
  · change '\n' ∉ e.significanceTested.asStr.toList
    cases e.significanceTested <;> decide

/-- The fields of a free line are those between its separators. -/
theorem free_of_fields (h : ∀ f ∈ e.record.1, '|' ∉ f) : e.Free := by
  have hfield : ∀ t ∈ e.fields.1, '|' ∉ t.toList := fun t ht => h _ (List.mem_map_of_mem ht)
  constructor <;> exact hfield _ (by simp [fields])

/-- The tags of an entry as its line has them. -/
def tags (e : ModelDigestEntry) : List String :=
  [e.judgeProvider.getD "", e.rubricFingerprint.getD "", e.determinism.getD ""]

theorem record_of_rounded (h : e.rounded = e'.rounded) : e.record = e'.record := by
  obtain ⟨hp, hm, ht, hq, hr, hc, h50, h95, hruns, hcases, hv, hj, hf, hd, hz, hs⟩ :=
    RoundedEntry.mk.inj h
  unfold record fields
  rw [hp, hm, ht, hq, hr, hc, h50, h95, hruns, hcases, hv, hj, hf, hd, hz, hs]

theorem fields_of_record (h : e.record = e'.record) : e.fields = e'.fields := by
  have hinj : Function.Injective String.toList := fun _ _ h => String.toList_injective h
  exact Prod.ext (List.map_injective_iff.2 hinj (Prod.ext_iff.1 h).1)
    (hinj (Prod.ext_iff.1 h).2)

/-- **A line tells an entry** but for the tags that are not recorded. -/
theorem rounded_of_record (h : e.record = e'.record) (hj : e.judgeProvider = e'.judgeProvider)
    (hf : e.rubricFingerprint = e'.rubricFingerprint) (hd : e.determinism = e'.determinism) :
    e.rounded = e'.rounded := by
  obtain ⟨hfields, hlast⟩ := Prod.ext_iff.1 (fields_of_record h)
  simp only [fields, List.cons.injEq, and_true] at hfields
  obtain ⟨hp, hm, ht, hq, hr, hc, h50, h95, hruns, hcases, hv, -, -, -, hz⟩ := hfields
  have hvariance : e.qualityVariance.map figure9 = e'.qualityVariance.map figure9 := by
    cases hv1 : e.qualityVariance with
    | none =>
      cases hv2 : e'.qualityVariance with
      | none => rfl
      | some w =>
        rw [hv1, hv2] at hv
        exact absurd hv.symm (figure9_ne w)
    | some w =>
      cases hv2 : e'.qualityVariance with
      | none =>
        rw [hv1, hv2] at hv
        exact absurd hv (figure9_ne w)
      | some w' =>
        rw [hv1, hv2] at hv
        exact congrArg some hv
  unfold rounded
  rw [hp, hm, ht, hq, hr, hc, debugOption_inj h50, debugOption_inj h95,
    UInt32.toNat_inj.1 (toString_nat_inj hruns), UInt32.toNat_inj.1 (toString_nat_inj hcases),
    hvariance, hj, hf, hd, asStr_inj hz, asStr_inj hlast]

theorem record_tags (h : e.record = e'.record) : e.tags = e'.tags := by
  have hfields := (Prod.ext_iff.1 (fields_of_record h)).1
  simp only [fields, List.cons.injEq, and_true] at hfields
  obtain ⟨-, -, -, -, -, -, -, -, -, -, -, hj, hf, hd, -⟩ := hfields
  unfold tags
  rw [hj, hf, hd]

theorem Plain.free (h : e.Plain) : e.Free := by
  obtain ⟨j, hj, -, hjfree⟩ := h.judgeProvider
  obtain ⟨f, hf, -, hffree⟩ := h.rubricFingerprint
  obtain ⟨t, ht, -, htfree⟩ := h.determinism
  refine ⟨h.provider, h.model, h.taskType, ?_, ?_, ?_⟩
  · rwa [hj]
  · rwa [hf]
  · rwa [ht]

/-! ## Whose line is of no other entry -/

/-- A recorded tag is read from its line. -/
theorem tag_of_plain {tag tag' : Option String} (h : PlainTag tag)
    (heq : tag.getD "" = tag'.getD "") : tag = tag' := by
  obtain ⟨s, rfl, hs, -⟩ := h
  cases tag' with
  | none => exact absurd heq hs
  | some s' => exact congrArg some heq

/-- **The line of a plain entry** is of no other entry. -/
theorem entry_of_plain (h : e.Plain) (hline : e.record = e'.record) : e.rounded = e'.rounded := by
  have htags := record_tags hline
  simp only [tags, List.cons.injEq, and_true] at htags
  exact rounded_of_record hline (tag_of_plain h.judgeProvider htags.1)
    (tag_of_plain h.rubricFingerprint htags.2.1) (tag_of_plain h.determinism htags.2.2)

theorem line_eq (h : Delimited.frame '|' e'.record.1 = Delimited.frame '|' e.record.1)
    (hlast : e'.significanceTested = e.significanceTested) : e'.line = e.line := by
  refine String.toList_injective ?_
  rw [toList_line, toList_line]
  unfold Delimited.record
  rw [h]
  unfold record fields
  rw [hlast]

/-- A tag that is not recorded is written like an empty one. -/
theorem exists_same_tag {tag : Option String} (h : tag.getD "" = "") :
    ∃ tag' : Option String, tag' ≠ tag ∧ tag'.getD "" = tag.getD "" := by
  cases tag with
  | none => exact ⟨some "", nofun, rfl⟩
  | some s => exact ⟨none, nofun, h.symm⟩

theorem some_ofList_ne {tag : Option String} {a : List Char} (h : a ≠ (tag.getD "").toList) :
    some (String.ofList a) ≠ tag := by
  rintro rfl
  exact h (String.toList_ofList ..).symm

/-- Where no other entry has the line of one, no separator of it can be moved. -/
theorem free_of_only (honly : ∀ e' : ModelDigestEntry, e'.line = e.line → e'.rounded = e.rounded) :
    ('|' ∉ e.provider.toList ∧ '|' ∉ e.model.toList) ∧ '|' ∉ e.taskType.toList ∧
      ('|' ∉ (e.judgeProvider.getD "").toList ∧ '|' ∉ (e.rubricFingerprint.getD "").toList) ∧
      '|' ∉ (e.determinism.getD "").toList := by
  have hnames : '|' ∉ e.provider.toList ∧ '|' ∉ e.model.toList := by
    rw [← not_or]
    intro hmem
    obtain ⟨a, c, hne, hframe⟩ := Delimited.exists_moved hmem
    have heq := honly { e with provider := String.ofList a, model := String.ofList c }
      (line_eq (by
        simp only [record, fields, List.map_cons, String.toList_ofList]
        exact hframe [] _) rfl)
    have hp : String.ofList a = e.provider := congrArg RoundedEntry.provider heq
    exact hne (by rw [← hp, String.toList_ofList])
  -- a separator in the task type lets the model end earlier
  have htask : '|' ∉ e.taskType.toList := by
    intro hmem
    obtain ⟨a, c, hne, hframe⟩ := Delimited.exists_moved (a := e.model.toList) (.inr hmem)
    have heq := honly { e with model := String.ofList a, taskType := String.ofList c }
      (line_eq (by
        simp only [record, fields, List.map_cons, String.toList_ofList]
        exact hframe [e.provider.toList] _) rfl)
    have hm : String.ofList a = e.model := congrArg RoundedEntry.model heq
    exact hne (by rw [← hm, String.toList_ofList])
  have htags : '|' ∉ (e.judgeProvider.getD "").toList ∧
      '|' ∉ (e.rubricFingerprint.getD "").toList := by
    rw [← not_or]
    intro hmem
    obtain ⟨a, c, hne, hframe⟩ := Delimited.exists_moved hmem
    have heq := honly
      { e with
        judgeProvider := some (String.ofList a)
        rubricFingerprint := some (String.ofList c) }
      (line_eq (by
        simp only [record, fields, List.map_cons, String.toList_ofList, Option.getD_some]
        exact hframe ((e.record.1).take 11) _) rfl)
    exact some_ofList_ne hne (congrArg RoundedEntry.judgeProvider heq)
  -- and one in the determinism the fingerprint
  have hdeterminism : '|' ∉ (e.determinism.getD "").toList := by
    intro hmem
    obtain ⟨a, c, hne, hframe⟩ :=
      Delimited.exists_moved (a := (e.rubricFingerprint.getD "").toList) (.inr hmem)
    have heq := honly
      { e with rubricFingerprint := some (String.ofList a), determinism := some (String.ofList c) }
      (line_eq (by
        simp only [record, fields, List.map_cons, String.toList_ofList, Option.getD_some]
        exact hframe ((e.record.1).take 12) _) rfl)
    exact some_ofList_ne hne (congrArg RoundedEntry.rubricFingerprint heq)
  exact ⟨hnames, htask, htags, hdeterminism⟩

/-- No tag and the empty tag are written alike, so neither is there. -/
theorem tags_of_only (honly : ∀ e' : ModelDigestEntry, e'.line = e.line → e'.rounded = e.rounded) :
    e.judgeProvider.getD "" ≠ "" ∧ e.rubricFingerprint.getD "" ≠ "" ∧
      e.determinism.getD "" ≠ "" := by
  refine ⟨?_, ?_, ?_⟩
  · intro hempty
    obtain ⟨tag, hne, hsame⟩ := exists_same_tag hempty
    have heq := honly { e with judgeProvider := tag }
      (line_eq (by simp only [record, fields, hsame]) rfl)
    exact hne (congrArg RoundedEntry.judgeProvider heq)
  · intro hempty
    obtain ⟨tag, hne, hsame⟩ := exists_same_tag hempty
    have heq := honly { e with rubricFingerprint := tag }
      (line_eq (by simp only [record, fields, hsame]) rfl)
    exact hne (congrArg RoundedEntry.rubricFingerprint heq)
  · intro hempty
    obtain ⟨tag, hne, hsame⟩ := exists_same_tag hempty
    have heq := honly { e with determinism := tag }
      (line_eq (by simp only [record, fields, hsame]) rfl)
    exact hne (congrArg RoundedEntry.determinism heq)

/-- **The line of any other entry** is of another entry too. -/
theorem line_of_not_plain (h : ¬ e.Plain) :
    ∃ e' : ModelDigestEntry, e'.line = e.line ∧ e'.rounded ≠ e.rounded := by
  by_contra hnone
  refine h ?_
  have honly : ∀ e' : ModelDigestEntry, e'.line = e.line → e'.rounded = e.rounded := by
    intro e' hline
    by_contra hne
    exact hnone ⟨e', hline, hne⟩
  have hplain : ∀ tag : Option String, '|' ∉ (tag.getD "").toList → tag.getD "" ≠ "" →
      PlainTag tag := by
    intro tag hfree hne
    cases tag with
    | none => exact absurd rfl hne
    | some s => exact ⟨s, rfl, hne, hfree⟩
  obtain ⟨hnames, htask, htags, hdeterminism⟩ := free_of_only honly
  obtain ⟨hjudge, hfingerprint, hhow⟩ := tags_of_only honly
  exact ⟨hnames.1, hnames.2, htask, hplain _ htags.1 hjudge, hplain _ htags.2 hfingerprint,
    hplain _ hdeterminism hhow⟩

end ModelDigestEntry

/-! ## Texts -/

namespace CollectiveDigest

variable {d d' : CollectiveDigest}

/-- The header as a record. -/
def headerRecord (d : CollectiveDigest) : List (List Char) × List Char :=
  ([("v" ++ toString d.schemaVersion.toNat).toList, ("k" ++ toString d.minCases.toNat).toList,
    ("in" ++ toString d.projectsIncluded.toNat).toList],
    ("ex" ++ toString d.projectsExcluded.toNat).toList)

theorem toList_header (d : CollectiveDigest) :
    d.header.toList = Delimited.record '|' '\n' d.headerRecord := by
  unfold header Delimited.record Delimited.frame headerRecord
  simp

theorem headerRecord_clean (d : CollectiveDigest) :
    Delimited.Clean '|' '\n' 3 d.headerRecord := by
  refine ⟨rfl, ?_, ?_⟩
  · intro f hf
    simp only [headerRecord, List.mem_cons, List.not_mem_nil, or_false] at hf
    rcases hf with rfl | rfl | rfl <;>
      · rw [String.toList_append, List.mem_append, not_or]
        exact ⟨by decide, toString_nat_free _⟩
  · simp only [headerRecord, String.toList_append, List.mem_append, not_or]
    exact ⟨by decide, fun h => absurd (isDigit_toString_nat h) (by decide)⟩

/-- The lines of the entries. -/
def body (d : CollectiveDigest) : List Char :=
  d.sorted.flatMap fun e => Delimited.record '|' '\n' e.record

theorem toList_text (d : CollectiveDigest) : d.text.toList = d.header.toList ++ d.body := by
  unfold text body
  rw [String.toList_append, toList_join_map]
  simp only [ModelDigestEntry.toList_line]

/-- The same envelope. -/
def SameEnvelope (d d' : CollectiveDigest) : Prop :=
  d.schemaVersion = d'.schemaVersion ∧ d.minCases = d'.minCases ∧
    d.projectsIncluded = d'.projectsIncluded ∧ d.projectsExcluded = d'.projectsExcluded

/-- **The text is the envelope and the lines.** -/
theorem text_eq_iff_body : d.text = d'.text ↔ d.SameEnvelope d' ∧ d.body = d'.body := by
  constructor
  · intro h
    have hlist := congrArg String.toList h
    rw [toList_text, toList_text, toList_header, toList_header] at hlist
    obtain ⟨hrec, hbody⟩ :=
      Delimited.record_inj (headerRecord_clean d) (headerRecord_clean d') hlist
    simp only [headerRecord, Prod.mk.injEq, List.cons.injEq, and_true, String.toList_append] at hrec
    obtain ⟨⟨hv, hk, hin⟩, hex⟩ := hrec
    have hnum : ∀ {t : List Char} {a b : UInt32},
        t ++ (toString a.toNat).toList = t ++ (toString b.toNat).toList → a = b := by
      intro t a b hab
      exact UInt32.toNat_inj.1 (toString_nat_inj (String.toList_injective
        (List.append_cancel_left hab)))
    exact ⟨⟨hnum hv, hnum hk, hnum hin, hnum hex⟩, hbody⟩
  · rintro ⟨⟨hv, hk, hin, hex⟩, hbody⟩
    refine String.toList_injective ?_
    rw [toList_text, toList_text, hbody]
    unfold header
    rw [hv, hk, hin, hex]

theorem sorted_perm (d : CollectiveDigest) : d.sorted.Perm d.entries := List.mergeSort_perm _ _

theorem body_of_singleton {e : ModelDigestEntry} (h : d.entries = [e]) :
    d.body = Delimited.record '|' '\n' e.record := by
  unfold body sorted
  rw [h, List.mergeSort_singleton, List.flatMap_singleton]

theorem body_eq_nil_iff : d.body = [] ↔ d.entries = [] := by
  constructor
  · intro h
    have hnil : d.sorted = [] := by
      cases hsorted : d.sorted with
      | nil => rfl
      | cons e l =>
        unfold body at h
        rw [hsorted, List.flatMap_cons, List.append_eq_nil_iff] at h
        exact absurd h.1 (Delimited.record_ne_nil _)
    exact (hnil ▸ d.sorted_perm).symm.eq_nil
  · intro h
    unfold body sorted
    rw [h, List.mergeSort_nil, List.flatMap_nil]

/-- Separators in the lines: at least fifteen each. -/
theorem count_records (l : List ModelDigestEntry) :
    15 * l.length ≤ (l.flatMap fun e => Delimited.record '|' '\n' e.record).count '|' := by
  induction l with
  | nil => exact Nat.zero_le _
  | cons e l ih =>
    have hframe : 15 ≤ (Delimited.frame '|' e.record.1).count '|' :=
      Delimited.length_le_count_frame e.record.1
    rw [List.flatMap_cons, List.count_append, List.length_cons]
    unfold Delimited.record at ih ⊢
    rw [List.count_append]
    omega

/-- A free line has fifteen. -/
theorem count_record_of_free {e : ModelDigestEntry} (h : e.Free) :
    (Delimited.record '|' '\n' e.record).count '|' = 15 := by
  unfold Delimited.record
  rw [List.count_append, Delimited.count_frame_of_free h.clean.free, List.count_append]
  have hlast : e.record.2.count '|' = 0 := List.count_eq_zero.2 (asStr_free _)
  rw [hlast]
  rfl

/-- **A plain line alone** is the body of no other digest. -/
theorem entries_of_body {e : ModelDigestEntry} (h : e.Plain)
    (hbody : Delimited.record '|' '\n' e.record = d'.body) :
    ∃ e', d'.entries = [e'] ∧ e.rounded = e'.rounded := by
  have hcount := count_records d'.sorted
  change 15 * d'.sorted.length ≤ d'.body.count '|' at hcount
  rw [← hbody, count_record_of_free h.free] at hcount
  cases hsorted : d'.sorted with
  | nil =>
    unfold body at hbody
    rw [hsorted] at hbody
    exact absurd hbody (Delimited.record_ne_nil _)
  | cons e' l =>
    rw [hsorted, List.length_cons] at hcount
    have hl : l = [] := List.eq_nil_of_length_eq_zero (by omega)
    have hentries : d'.entries = [e'] := by
      have hperm := d'.sorted_perm
      rw [hsorted, hl] at hperm
      exact List.perm_singleton.1 hperm.symm
    rw [body_of_singleton hentries] at hbody
    -- the other line has no separators to spare
    have hfree : e'.Free := by
      refine ModelDigestEntry.free_of_fields (Delimited.free_of_count ?_)
      have heq := congrArg (List.count '|') hbody
      rw [count_record_of_free h.free] at heq
      unfold Delimited.record at heq
      rw [List.count_append] at heq
      exact le_trans (Nat.le_add_right _ _) heq.symm.le
    have hrecord := Delimited.record_inj h.free.clean hfree.clean (x := []) (y := [])
      (by rw [List.append_nil, List.append_nil]; exact hbody)
    exact ⟨e', hentries, ModelDigestEntry.entry_of_plain h hrecord.1⟩

/-- Text in front of a line is text in front of its first field. -/
theorem record_append (x : List Char) (e : ModelDigestEntry) :
    Delimited.record '|' '\n'
      { e with provider := String.ofList (x ++ e.provider.toList) }.record =
        x ++ Delimited.record '|' '\n' e.record := by
  unfold Delimited.record ModelDigestEntry.record ModelDigestEntry.fields
  simp only [List.map_cons, String.toList_ofList, Delimited.frame_cons, List.append_assoc]

/-- **Several lines are one line too**, of a provider that holds all but the last. -/
theorem exists_merged (h : 2 ≤ d.entries.length) :
    ∃ e, ({ d with entries := [e] } : CollectiveDigest).text = d.text := by
  have hlen : d.sorted.length = d.entries.length := d.sorted_perm.length_eq
  have hne : d.sorted ≠ [] := by
    intro hnil
    rw [hnil, List.length_nil] at hlen
    omega
  have hsplit := List.dropLast_append_getLast hne
  refine ⟨{ d.sorted.getLast hne with
    provider := String.ofList ((d.sorted.dropLast.flatMap fun e =>
      Delimited.record '|' '\n' e.record) ++ (d.sorted.getLast hne).provider.toList) }, ?_⟩
  refine text_eq_iff_body.2 ⟨⟨rfl, rfl, rfl, rfl⟩, ?_⟩
  rw [body_of_singleton rfl, record_append]
  unfold body
  conv_rhs => rw [← hsplit, List.flatMap_append, List.flatMap_singleton]

theorem text_of_sameContent_singleton {e : ModelDigestEntry} (h : d.entries = [e])
    (hsame : d.SameContent d') : d.text = d'.text := by
  obtain ⟨hv, hk, hin, hex, hentries⟩ := hsame
  rw [h, List.map_singleton] at hentries
  obtain ⟨e', he', hrounded⟩ := List.map_eq_singleton_iff.1 (List.singleton_perm.1 hentries).symm
  refine text_eq_iff_body.2 ⟨⟨hv, hk, hin, hex⟩, ?_⟩
  rw [body_of_singleton h, body_of_singleton he',
    ModelDigestEntry.record_of_rounded hrounded]

/-- **Whose text tells its content**: no entries, or one that is plain. -/
theorem tellsContent_iff : d.TellsContent ↔ d.entries = [] ∨ ∃ e, d.entries = [e] ∧ e.Plain := by
  constructor
  · intro h
    rcases hentries : d.entries with _ | ⟨e, _ | ⟨e₂, l⟩⟩
    · exact .inl rfl
    · refine .inr ⟨e, rfl, ?_⟩
      by_contra hplain
      -- another entry would have the same line
      obtain ⟨e', hline, hne⟩ := ModelDigestEntry.line_of_not_plain hplain
      have htext : d.text = ({ d with entries := [e'] } : CollectiveDigest).text := by
        refine text_eq_iff_body.2 ⟨⟨rfl, rfl, rfl, rfl⟩, ?_⟩
        rw [body_of_singleton hentries, body_of_singleton rfl, ← ModelDigestEntry.toList_line,
          ← ModelDigestEntry.toList_line, hline]
      have hperm := ((h _).1 htext).entries
      rw [hentries] at hperm
      exact hne (List.singleton_perm_singleton.1 hperm).symm
    · -- two entries can be written as one
      obtain ⟨e', htext⟩ := exists_merged (d := d) (by rw [hentries]; exact Nat.le_add_left 2 _)
      have hperm := ((h _).1 htext.symm).entries.length_eq
      rw [hentries] at hperm
      simp at hperm
  · rintro (hnil | ⟨e, he, hplain⟩) d'
    · constructor
      · intro h
        obtain ⟨⟨hv, hk, hin, hex⟩, hbody⟩ := text_eq_iff_body.1 h
        have hnil' := body_eq_nil_iff.1 (hbody.symm.trans (body_eq_nil_iff.2 hnil))
        exact ⟨hv, hk, hin, hex, by rw [hnil, hnil']⟩
      · rintro ⟨hv, hk, hin, hex, hentries⟩
        rw [hnil, List.map_nil] at hentries
        have hnil' := List.map_eq_nil_iff.1 hentries.symm.eq_nil
        exact text_eq_iff_body.2 ⟨⟨hv, hk, hin, hex⟩,
          (body_eq_nil_iff.2 hnil).trans (body_eq_nil_iff.2 hnil').symm⟩
    · constructor
      · intro h
        obtain ⟨⟨hv, hk, hin, hex⟩, hbody⟩ := text_eq_iff_body.1 h
        rw [body_of_singleton he] at hbody
        -- the line tells the entry, up to rounding
        obtain ⟨e', he', hrounded⟩ := entries_of_body hplain hbody
        exact ⟨hv, hk, hin, hex, by rw [he, he', List.map_singleton, List.map_singleton, hrounded]⟩
      · exact text_of_sameContent_singleton he

/-! ## Pairs of digests -/

/-- No text holds a separator, no tag is recorded as empty, and no key is there twice. -/
structure Clean (d : CollectiveDigest) : Prop where
  free : ∀ e ∈ d.entries, e.Free
  tags : ∀ e ∈ d.entries, e.judgeProvider ≠ some "" ∧ e.rubricFingerprint ≠ some "" ∧
    e.determinism ≠ some ""
  keys : (d.entries.map ModelDigestEntry.key).Nodup

theorem tag_of_nonempty {tag tag' : Option String} (h : tag ≠ some "") (h' : tag' ≠ some "")
    (heq : tag.getD "" = tag'.getD "") : tag = tag' := by
  cases tag with
  | none =>
    cases tag' with
    | none => rfl
    | some s => exact absurd (congrArg some heq.symm) h'
  | some s =>
    cases tag' with
    | none => exact absurd (congrArg some heq) h
    | some s' => exact congrArg some heq

/-- What tells the images under one function tells those under another. -/
theorem map_eq_of_map_eq {α β γ : Type*} {f : α → β} {g : α → γ} {l m : List α}
    (h : ∀ a ∈ l, ∀ b ∈ m, f a = f b → g a = g b) (heq : l.map f = m.map f) :
    l.map g = m.map g := by
  induction l generalizing m with
  | nil =>
    rw [List.map_nil, eq_comm, List.map_eq_nil_iff] at heq
    rw [heq]
  | cons a l ih =>
    cases m with
    | nil => simp at heq
    | cons b m =>
      rw [List.map_cons, List.map_cons, List.cons.injEq] at heq
      rw [List.map_cons, List.map_cons, h a List.mem_cons_self b List.mem_cons_self heq.1,
        ih (fun a' ha' b' hb' => h a' (List.mem_cons_of_mem _ ha') b' (List.mem_cons_of_mem _ hb'))
          heq.2]

/-- Clean lines tell their entries. -/
theorem sorted_of_body (hd : d.Clean) (hd' : d'.Clean) (h : d.body = d'.body) :
    d.sorted.map (·.rounded) = d'.sorted.map (·.rounded) := by
  have hclean : ∀ {d : CollectiveDigest}, d.Clean →
      ∀ r ∈ d.sorted.map (·.record), Delimited.Clean '|' '\n' 15 r := by
    intro d hd r hr
    obtain ⟨e, he, rfl⟩ := List.mem_map.1 hr
    exact (hd.free e (d.sorted_perm.mem_iff.1 he)).clean
  have hrecords : d.sorted.map (·.record) = d'.sorted.map (·.record) := by
    refine Delimited.records_inj (hclean hd) (hclean hd') ?_
    rw [List.flatMap_map, List.flatMap_map]
    exact h
  refine map_eq_of_map_eq ?_ hrecords
  intro e he e' he' hrecord
  obtain ⟨hj, hf, ht⟩ := hd.tags e (d.sorted_perm.mem_iff.1 he)
  obtain ⟨hj', hf', ht'⟩ := hd'.tags e' (d'.sorted_perm.mem_iff.1 he')
  have htags := ModelDigestEntry.record_tags hrecord
  simp only [ModelDigestEntry.tags, List.cons.injEq, and_true] at htags
  exact ModelDigestEntry.rounded_of_record hrecord (tag_of_nonempty hj hj' htags.1)
    (tag_of_nonempty hf hf' htags.2.1) (tag_of_nonempty ht ht' htags.2.2)

theorem pairwise_sorted (d : CollectiveDigest) :
    (d.sorted.map (·.rounded)).Pairwise fun a b => a.key ≤ b.key :=
  List.pairwise_map.2 (Extremum.sorted_mergeSort ModelDigestEntry.key d.entries)

/-- **Entries of different keys are sorted in one way.** -/
theorem sorted_of_perm (hd : d.Clean)
    (h : (d.entries.map (·.rounded)).Perm (d'.entries.map (·.rounded))) :
    d.sorted.map (·.rounded) = d'.sorted.map (·.rounded) := by
  have hperm : (d.sorted.map (·.rounded)).Perm (d.entries.map (·.rounded)) := d.sorted_perm.map _
  have hperm' : (d'.sorted.map (·.rounded)).Perm (d.entries.map (·.rounded)) :=
    (d'.sorted_perm.map _).trans h.symm
  refine (hperm.trans hperm'.symm).eq_of_pairwise ?_ (pairwise_sorted d) (pairwise_sorted d')
  intro a b ha hb hab hba
  have hkeys : ((d.entries.map (·.rounded)).map RoundedEntry.key).Nodup := by
    rw [List.map_map]
    exact hd.keys
  exact List.inj_on_of_nodup_map hkeys (hperm.mem_iff.1 ha) (hperm'.mem_iff.1 hb)
    (le_antisymm hab hba)

/-- **Two clean digests have one text** exactly when they have the same content. -/
theorem text_eq_iff (hd : d.Clean) (hd' : d'.Clean) : d.text = d'.text ↔ d.SameContent d' := by
  rw [text_eq_iff_body]
  constructor
  · rintro ⟨⟨hv, hk, hin, hex⟩, hbody⟩
    refine ⟨hv, hk, hin, hex, ?_⟩
    have hsorted := sorted_of_body hd hd' hbody
    exact (d.sorted_perm.map _).symm.trans (hsorted ▸ d'.sorted_perm.map _)
  · rintro ⟨hv, hk, hin, hex, hentries⟩
    refine ⟨⟨hv, hk, hin, hex⟩, ?_⟩
    have hrecords : d.sorted.map (·.record) = d'.sorted.map (·.record) :=
      map_eq_of_map_eq (fun _ _ _ _ h => ModelDigestEntry.record_of_rounded h)
        (sorted_of_perm hd hentries)
    have hbody := congrArg (List.flatMap (Delimited.record '|' '\n')) hrecords
    rw [List.flatMap_map, List.flatMap_map] at hbody
    exact hbody

/-- A push after one of another digest is skipped where that one landed and had the same text. -/
theorem unchangedSinceLast_iff {sha256 : String → String} (hsha : Function.Injective sha256)
    (status : ContributionStatus) :
    unchangedSinceLast (some ⟨status, digestSha256 sha256 d'⟩) (digestSha256 sha256 d) = true ↔
      status = .sent ∧ d.text = d'.text := by
  unfold unchangedSinceLast digestSha256 ContributionStatus.landed
  rw [Option.any_some, Bool.and_eq_true, beq_iff_eq, beq_iff_eq, hsha.eq_iff,
    eq_comm (a := d'.text)]

end CollectiveDigest

/-- When the gate of a push is one of content: for a digest against any other, and for two clean
ones. -/
structure GatesOnContent (d : CollectiveDigest) : Prop where
  alone : d.TellsContent ↔ d.entries = [] ∨ ∃ e, d.entries = [e] ∧ e.Plain
  pair : ∀ d' : CollectiveDigest, d.Clean → d'.Clean → (d.text = d'.text ↔ d.SameContent d')
  gate : ∀ d' : CollectiveDigest, d.TellsContent ∨ d.Clean ∧ d'.Clean →
    ∀ sha256 : String → String, Function.Injective sha256 → ∀ status : ContributionStatus,
      unchangedSinceLast (some ⟨status, digestSha256 sha256 d'⟩) (digestSha256 sha256 d) = true ↔
        status = .sent ∧ d.SameContent d'

/-- **The hash gates on content** where the text does. -/
theorem digest_gates (d : CollectiveDigest) : GatesOnContent d := by
  refine ⟨CollectiveDigest.tellsContent_iff, fun d' => CollectiveDigest.text_eq_iff, ?_⟩
  intro d' hd sha256 hsha status
  have htext : d.text = d'.text ↔ d.SameContent d' := by
    rcases hd with htells | ⟨hd, hd'⟩
    · exact htells d'
    · exact CollectiveDigest.text_eq_iff hd hd'
  rw [CollectiveDigest.unchangedSinceLast_iff hsha, htext]

/-- A digest of one entry. -/
def digestOf (provider model : String) : CollectiveDigest where
  schemaVersion := 3
  contributorId := "c-abc"
  generatedAt := 0
  minCases := 5
  projectsIncluded := 2
  projectsExcluded := 1
  bucketsWithheld := 0
  entries :=
    [{ provider := provider
       model := model
       taskType := "qa"
       quality := some (8 / 10)
       passRate := some (9 / 10)
       avgCostUsd := some (1 / 1000)
       p50LatencyMs := some 120
       p95LatencyMs := none
       nRuns := 3
       nCases := 30
       qualityVariance := some (some (1 / 100))
       judgeProvider := some "anthropic"
       rubricFingerprint := some "abc123"
       determinism := some "exact"
       frozenDataset := .all
       significanceTested := .unknown }]

example : (digestOf "openai" "gpt-4o").text = "v3|k5|in2|ex1\n" ++
    "openai|gpt-4o|qa|0.800000000|0.900000000|0.001000000|Some(120)|None|3|30|0.010000000|" ++
    "anthropic|abc123|exact|all|unknown\n" := by
  decide +kernel

/-- The separator moves from the provider to the model, and the text stays the same. -/
theorem moved_separator :
    (digestOf "acme|eu" "zoo-1").text = (digestOf "acme" "eu|zoo-1").text ∧
      ¬ (digestOf "acme|eu" "zoo-1").SameContent (digestOf "acme" "eu|zoo-1") := by
  refine ⟨by decide +kernel, fun h => ?_⟩
  have hentries := List.singleton_perm_singleton.1 h.entries
  exact absurd (congrArg RoundedEntry.provider hentries) (by decide)

end LightTrack
