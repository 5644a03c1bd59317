import LightTrack.Core.MarginPolicy
import LightTrack.Lib.Keyed

/-! # Applying the changes of a guardrail pass

The changes of a pass are applied in order: rules are created, updated by id, deleted by id.  Rules
are looked at one origin at a time; a write under one origin leaves every other origin alone, so
what a pass leaves behind is told pair by pair.

* `withOrigin_applyChanges` : a write is felt under its own origin only,
* `withOrigin_pair` : what a pass leaves under the origin of a pair,
* `withOrigin_withdrawn`, `withOrigin_untouched` : what it leaves elsewhere.
-/

namespace LightTrack

/-! ## Applying changes -/

/-- One change on a rule set. -/
def RuleChange.apply (rules : List LimitRule) : RuleChange → List LimitRule
  | create r => rules ++ [r]
  | update r => rules.map fun r' => if r'.id = r.id then r else r'
  | delete id => rules.filter fun r => r.id ≠ id

/-- The changes of a pass, in order. -/
def applyChanges (rules : List LimitRule) (changes : List RuleChange) : List LimitRule :=
  changes.foldl RuleChange.apply rules

/-- The rules that carry an origin. -/
def withOrigin (k : Option String) (rules : List LimitRule) : List LimitRule :=
  rules.filter fun r => r.origin = k

theorem mem_withOrigin {k : Option String} {rules : List LimitRule} {r : LimitRule} :
    r ∈ withOrigin k rules ↔ r ∈ rules ∧ r.origin = k := by
  simp [withOrigin]

/-- Rules agree on their origin with the rule in place under the same id. -/
def Anchored (existing rules : List LimitRule) : Prop :=
  ∀ r ∈ rules, ∀ e ∈ existing, r.id = e.id → r.origin = e.origin

/-- A change creates a rule under a fresh id, or rewrites one in place under its origin. -/
def WritesOver (existing : List LimitRule) : RuleChange → Prop
  | .create r => ∀ e ∈ existing, e.id ≠ r.id
  | .update r => ∃ e ∈ existing, e.id = r.id ∧ e.origin = r.origin
  | .delete _ => False

theorem anchored_self {existing : List LimitRule} (hids : (existing.map LimitRule.id).Nodup) :
    Anchored existing existing :=
  fun _ hr _ he h => congrArg LimitRule.origin (List.inj_on_of_nodup_map hids hr he h)

theorem Anchored.apply {existing rules : List LimitRule} {c : RuleChange}
    (hids : (existing.map LimitRule.id).Nodup) (h : Anchored existing rules)
    (hc : WritesOver existing c) : Anchored existing (c.apply rules) := by
  intro r hr e he hid
  cases c with
  | create new =>
    rcases List.mem_append.1 hr with hr | hr
    · exact h r hr e he hid
    · rw [List.mem_singleton] at hr
      rw [hr] at hid
      exact absurd hid.symm (hc e he)
  | update new =>
    rcases List.mem_map.1 hr with ⟨r', hr', hnew⟩
    rcases hc with ⟨e', he', hid', horigin⟩
    by_cases hsame : r'.id = new.id
    · rw [if_pos hsame] at hnew
      rw [← hnew] at hid ⊢
      have heq : e' = e := List.inj_on_of_nodup_map hids he' he (hid'.trans hid)
      rw [← heq, horigin]
    · rw [if_neg hsame] at hnew
      rw [← hnew] at hid ⊢
      exact h r' hr' e he hid
  | delete id => exact hc.elim

theorem Anchored.applyChanges {existing rules : List LimitRule} {changes : List RuleChange}
    (hids : (existing.map LimitRule.id).Nodup) (h : Anchored existing rules)
    (hc : ∀ c ∈ changes, WritesOver existing c) :
    Anchored existing (applyChanges rules changes) := by
  induction changes generalizing rules with
  | nil => exact h
  | cons c changes ih =>
    exact ih (h.apply hids (hc c (List.mem_cons_self ..)))
      fun c' hc' => hc c' (List.mem_cons_of_mem _ hc')

/-- A write is felt under its own origin only. -/
theorem withOrigin_apply {existing rules : List LimitRule} {c : RuleChange} {k : Option String}
    (h : Anchored existing rules) (hc : WritesOver existing c) :
    withOrigin k (c.apply rules) =
      if c.origin = k then c.apply (withOrigin k rules) else withOrigin k rules := by
  cases c with
  | create new =>
    unfold withOrigin RuleChange.apply RuleChange.origin
    by_cases hk : new.origin = k
    · simp [hk]
    · simp [hk]
  | update new =>
    rcases hc with ⟨e, he, hid, horigin⟩
    -- a rule keeps its origin when it is rewritten
    have hsame : ∀ r ∈ rules, r.id = new.id → r.origin = new.origin := by
      intro r hr hr'
      rw [h r hr e he (hr'.trans hid.symm), horigin]
    have hkeep : ∀ r ∈ rules,
        decide ((if r.id = new.id then new else r).origin = k) = decide (r.origin = k) := by
      intro r hr
      by_cases hr' : r.id = new.id
      · rw [if_pos hr', hsame r hr hr']
      · rw [if_neg hr']
    have hview : withOrigin k (RuleChange.apply rules (.update new)) =
        (withOrigin k rules).map fun r => if r.id = new.id then new else r := by
      unfold withOrigin RuleChange.apply
      rw [List.filter_map]
      congr 1
      exact List.filter_congr hkeep
    rw [hview]
    by_cases hk : (RuleChange.update new).origin = k
    · rw [if_pos hk]
      rfl
    · rw [if_neg hk]
      refine (List.map_congr_left ?_).trans (List.map_id _)
      intro r hr
      rcases mem_withOrigin.1 hr with ⟨hmem, hrk⟩
      refine if_neg fun hr' => hk ?_
      exact (hsame r hmem hr').symm.trans hrk
  | delete id => exact hc.elim

/-- **A pass of writes** is felt under an origin as the writes of that origin. -/
theorem withOrigin_applyChanges {existing rules : List LimitRule} {changes : List RuleChange}
    {k : Option String} (hids : (existing.map LimitRule.id).Nodup) (h : Anchored existing rules)
    (hc : ∀ c ∈ changes, WritesOver existing c) :
    withOrigin k (applyChanges rules changes) =
      applyChanges (withOrigin k rules) (changes.filter fun c => c.origin = k) := by
  induction changes generalizing rules with
  | nil => rfl
  | cons c changes ih =>
    have hhead := hc c (List.mem_cons_self ..)
    have hrest : withOrigin k (applyChanges (c.apply rules) changes) = _ :=
      ih (h.apply hids hhead) fun c' hc' => hc c' (List.mem_cons_of_mem _ hc')
    have hcons : applyChanges rules (c :: changes) = applyChanges (c.apply rules) changes := rfl
    rw [hcons, hrest, withOrigin_apply h hhead, List.filter_cons]
    by_cases hk : c.origin = k
    · simp [hk, applyChanges]
    · simp [hk]

/-- Deletions leave the rules with other ids. -/
theorem applyChanges_delete (rules : List LimitRule) (ids : List String) :
    applyChanges rules (ids.map .delete) = rules.filter fun r => r.id ∉ ids := by
  induction ids generalizing rules with
  | nil => simp [applyChanges]
  | cons id ids ih =>
    have hcons : applyChanges rules ((id :: ids).map .delete) =
        applyChanges (rules.filter fun r => r.id ≠ id) (ids.map .delete) := rfl
    rw [hcons, ih, List.filter_filter]
    refine List.filter_congr fun r _ => ?_
    simp [Bool.and_comm]

theorem applyChanges_append (rules : List LimitRule) (cs cs' : List RuleChange) :
    applyChanges rules (cs ++ cs') = applyChanges (applyChanges rules cs) cs' :=
  List.foldl_append ..

/-! ## The pairs of a pass -/

/-- What a pass is given: policies with different ids, rows with different keys, rules with different
ids, and ids to mint that no rule has. -/
structure SweepInputs (newId : ℕ → String) (policies : List MarginPolicy) (rows : List MarginRow)
    (existing : List LimitRule) : Prop where
  policyIds : (policies.map MarginPolicy.id).Nodup
  rowKeys : (rows.map MarginRow.key).Nodup
  ruleIds : (existing.map LimitRule.id).Nodup
  fresh : ∀ n, ∀ r ∈ existing, r.id ≠ newId n

/-- Whether a policy acts on a row. -/
def actsOn (forecasts : List MarginForecast) (p : MarginPolicy) (row : MarginRow) : Prop :=
  p.enabled = true ∧ ¬ row.llmCostUsd < p.minCostUsd ∧ fires p row forecasts = true

section

variable {newId : ℕ → String} {policies : List MarginPolicy} {rows : List MarginRow}
  {forecasts : List MarginForecast} {existing : List LimitRule} {now : Time}

theorem mem_firingPairs {x : MarginPolicy × MarginRow} :
    x ∈ firingPairs policies rows forecasts ↔
      x.1 ∈ policies ∧ x.2 ∈ rows ∧ actsOn forecasts x.1 x.2 := by
  rcases x with ⟨p, row⟩
  unfold firingPairs actsOn
  simp only [List.mem_flatMap, List.mem_map, List.mem_filter, Bool.not_eq_true', Bool.or_eq_false_iff,
    decide_eq_false_iff_not, Bool.not_eq_false', Prod.mk.injEq]
  constructor
  · rintro ⟨p', ⟨hp, hen⟩, row', ⟨hrow, hcost, hfires⟩, rfl, rfl⟩
    exact ⟨hp, hrow, hen, hcost, hfires⟩
  · rintro ⟨hp, hrow, hen, hcost, hfires⟩
    exact ⟨p, ⟨hp, hen⟩, row, ⟨hrow, hcost, hfires⟩, rfl, rfl⟩

/-- A policy whose id has a colon can share an origin with another policy.  The origin of this pair is
its own. -/
def IsAlone (policies : List MarginPolicy) (x : MarginPolicy × MarginRow) : Prop :=
  ∀ p ∈ policies, ∀ subject, p.originFor subject = pairOrigin x → p = x.1 ∧ subject = x.2.key

/-- Ids free of colons keep the origins of the pairs apart. -/
theorem SweepInputs.isAlone (h : SweepInputs newId policies rows existing)
    (hcolon : ∀ p ∈ policies, ':' ∉ p.id.toList) {x : MarginPolicy × MarginRow}
    (hx : x ∈ firingPairs policies rows forecasts) : IsAlone policies x := by
  intro p hp subject heq
  have hx := (mem_firingPairs.1 hx).1
  rcases originFor_inj (hcolon p hp) (hcolon x.1 hx) heq with ⟨hid, hsubject⟩
  exact ⟨List.inj_on_of_nodup_map h.policyIds hp hx hid, hsubject⟩

theorem SweepInputs.pairs_pairwise (h : SweepInputs newId policies rows existing) :
    (firingPairs policies rows forecasts).Pairwise fun x y =>
      x.1.id ≠ y.1.id ∨ x.1 = y.1 ∧ x.2.key ≠ y.2.key := by
  have hpolicies : (policies.filter MarginPolicy.enabled).Pairwise fun p p' => p.id ≠ p'.id :=
    (List.pairwise_map.1 h.policyIds).sublist List.filter_sublist
  have hrows : rows.Pairwise fun row row' => row.key ≠ row'.key := List.pairwise_map.1 h.rowKeys
  unfold firingPairs
  rw [List.pairwise_flatMap]
  constructor
  · intro p hp
    rw [List.pairwise_map]
    exact (hrows.sublist List.filter_sublist).imp fun hkey => Or.inr ⟨rfl, hkey⟩
  · refine hpolicies.imp fun hid x hx y hy => Or.inl ?_
    rcases List.mem_map.1 hx with ⟨row, -, rfl⟩
    rcases List.mem_map.1 hy with ⟨row', -, rfl⟩
    exact hid

/-- An origin that is a pair's own is the origin of one pair. -/
theorem SweepInputs.origin_pairwise (h : SweepInputs newId policies rows existing)
    {x : MarginPolicy × MarginRow} (halone : IsAlone policies x) :
    (firingPairs policies rows forecasts).Pairwise fun y z =>
      pairOrigin y = pairOrigin x → pairOrigin z ≠ pairOrigin x := by
  refine h.pairs_pairwise.imp_of_mem fun {y z} hy hz hne hyo hzo => ?_
  rcases halone y.1 (mem_firingPairs.1 hy).1 y.2.key hyo with ⟨hyp, hykey⟩
  rcases halone z.1 (mem_firingPairs.1 hz).1 z.2.key hzo with ⟨hzp, hzkey⟩
  rcases hne with hid | ⟨-, hkey⟩
  · exact hid (by rw [hyp, hzp])
  · exact hkey (hykey.trans hzkey.symm)

/-- The writes of a pass. -/
def passWrites (newId : ℕ → String) (existing : List LimitRule) (now : Time)
    (pairs : List (MarginPolicy × MarginRow)) : List RuleChange :=
  pairs.zipIdx.filterMap fun x => proposed existing now (newId x.2) x.1

/-- A proposal is a write under the origin of its pair. -/
theorem SweepInputs.proposed_writesOver (h : SweepInputs newId policies rows existing) {n : ℕ}
    {x : MarginPolicy × MarginRow} {c : RuleChange}
    (hc : proposed existing now (newId n) x = some c) :
    WritesOver existing c ∧ c.origin = some (pairOrigin x) := by
  unfold proposed at hc
  cases hcur : existing.find? fun r => r.origin == some (pairOrigin x) with
  | none =>
    simp only [hcur, Option.some.injEq] at hc
    rw [← hc]
    exact ⟨h.fresh n, rfl⟩
  | some current =>
    rw [hcur] at hc
    have horigin : current.origin = some (pairOrigin x) := by
      simpa using List.find?_some hcur
    by_cases hdue : isDue now x current = true
    · simp only [hdue, if_true, Option.some.injEq] at hc
      rw [← hc]
      exact ⟨⟨current, List.mem_of_find?_eq_some hcur, rfl, horigin⟩, rfl⟩
    · simp only [hdue] at hc
      cases hc

theorem SweepInputs.passWrites_writesOver (h : SweepInputs newId policies rows existing)
    {pairs : List (MarginPolicy × MarginRow)} :
    ∀ c ∈ passWrites newId existing now pairs, WritesOver existing c := by
  intro c hc
  rcases List.mem_filterMap.1 hc with ⟨x, -, hx⟩
  exact (h.proposed_writesOver hx).1

/-- The writes of a pass under the origin of a pair are what is proposed for the pair. -/
theorem SweepInputs.passWrites_origin (h : SweepInputs newId policies rows existing)
    {x : MarginPolicy × MarginRow} (halone : IsAlone policies x)
    (hx : x ∈ firingPairs policies rows forecasts) :
    ∃ n, ((passWrites newId existing now (firingPairs policies rows forecasts)).filter fun c =>
      c.origin = some (pairOrigin x)) = (proposed existing now (newId n) x).toList :=
  Keyed.filter_filterMap_zipIdx (some ∘ pairOrigin) RuleChange.origin
    (fun x => proposed existing now (newId x.2) x.1)
    (fun _ _ _ hc => (h.proposed_writesOver hc).2) hx
    ((h.origin_pairwise halone).imp fun hne hy hz =>
      hne (Option.some.inj hy) (Option.some.inj hz))

/-- No write of a pass is under the origin of no pair. -/
theorem SweepInputs.passWrites_other (h : SweepInputs newId policies rows existing)
    {k : Option String} {pairs : List (MarginPolicy × MarginRow)}
    (hk : ∀ x ∈ pairs, k ≠ some (pairOrigin x)) :
    ((passWrites newId existing now pairs).filter fun c => c.origin = k) = [] := by
  rw [List.filter_eq_nil_iff]
  intro c hc
  rcases List.mem_filterMap.1 hc with ⟨x, hx, hc⟩
  rw [decide_eq_true_eq, (h.proposed_writesOver hc).2]
  exact (hk x.1 (List.fst_mem_of_mem_zipIdx hx)).symm

/-- The ids the reverse pass withdraws. -/
def reapedIds (policies : List MarginPolicy) (rows : List MarginRow)
    (forecasts : List MarginForecast) (existing : List LimitRule) (now : Time) : List String :=
  (existing.filter (isReaped policies ((firingPairs policies rows forecasts).map pairOrigin)
    now)).map LimitRule.id

/-- The changes of a pass are its writes and then its withdrawals. -/
theorem evaluatePolicies_eq_ok_iff' {changes : List RuleChange} :
    evaluatePolicies newId policies rows forecasts existing now = .ok changes ↔
      (∀ x ∈ firingPairs policies rows forecasts, ExpiryFits now x.1) ∧
        changes = passWrites newId existing now (firingPairs policies rows forecasts) ++
          (reapedIds policies rows forecasts existing now).map .delete := by
  rw [evaluatePolicies_eq_ok_iff]
  unfold passWrites reapedIds List.reduceOption
  rw [List.filterMap_map, List.map_map]
  rfl

/-- Of a pair's rules the reverse pass withdraws those whose time is up. -/
theorem isReaped_pair {x : MarginPolicy × MarginRow}
    (hx : x ∈ firingPairs policies rows forecasts) {r : LimitRule}
    (hr : r.origin = some (pairOrigin x)) :
    isReaped policies ((firingPairs policies rows forecasts).map pairOrigin) now r =
      (isOwned policies (pairOrigin x) && r.isExpired now) := by
  have hwanted : pairOrigin x ∈ (firingPairs policies rows forecasts).map pairOrigin :=
    List.mem_map_of_mem hx
  unfold isReaped
  simp [hr, hwanted]

/-- Of the other rules it withdraws those it takes for its own. -/
theorem isReaped_other {origin : String}
    (hnot : ∀ x ∈ firingPairs policies rows forecasts, pairOrigin x ≠ origin) {r : LimitRule}
    (hr : r.origin = some origin) :
    isReaped policies ((firingPairs policies rows forecasts).map pairOrigin) now r =
      isOwned policies origin := by
  have hwanted : origin ∉ (firingPairs policies rows forecasts).map pairOrigin := by
    intro hmem
    rcases List.mem_map.1 hmem with ⟨x, hx, heq⟩
    exact hnot x hx heq
  unfold isReaped
  simp [hr, hwanted]

theorem mem_reapedIds (hids : (existing.map LimitRule.id).Nodup) {r : LimitRule}
    (hr : r ∈ existing) :
    r.id ∈ reapedIds policies rows forecasts existing now ↔
      isReaped policies ((firingPairs policies rows forecasts).map pairOrigin) now r = true := by
  unfold reapedIds
  rw [List.mem_map]
  constructor
  · rintro ⟨e, he, hid⟩
    rcases List.mem_filter.1 he with ⟨he, hreaped⟩
    have hsame : e = r := List.inj_on_of_nodup_map hids he hr hid
    rwa [← hsame]
  · intro hreaped
    exact ⟨r, List.mem_filter.2 ⟨hr, hreaped⟩, rfl⟩

/-! ## What a pass leaves behind -/

/-- The ids the reverse pass withdraws under the origin of a pair. -/
def withdrawnIds (owned : Bool) (existing : List LimitRule) (now : Time) (k : Option String) :
    List String :=
  ((withOrigin k existing).filter fun e => owned && e.isExpired now).map LimitRule.id

/-- What a pass leaves under the origin of a pair, when it made one write for it or none. -/
def pairView (owned : Bool) (existing : List LimitRule) (now : Time) (k : Option String)
    (written : Option RuleChange) : List LimitRule :=
  (applyChanges (withOrigin k existing) written.toList).filter fun r =>
    r.id ∉ withdrawnIds owned existing now k

/-- Looking at one origin after a pass. -/
theorem withOrigin_pass {writes : List RuleChange} {ids : List String} {k : Option String} :
    withOrigin k (applyChanges existing (writes ++ ids.map .delete)) =
      (withOrigin k (applyChanges existing writes)).filter fun r => r.id ∉ ids := by
  rw [applyChanges_append, applyChanges_delete]
  unfold withOrigin
  rw [List.filter_comm]

section

variable {writes : List RuleChange}

/-- **Under the origin of a pair** a pass leaves what it writes for the pair, less what it
withdraws. -/
theorem withOrigin_pair (hids : (existing.map LimitRule.id).Nodup)
    (hwrites : ∀ c ∈ writes, WritesOver existing c) {x : MarginPolicy × MarginRow}
    (hx : x ∈ firingPairs policies rows forecasts) {written : Option RuleChange}
    (hwritten : (writes.filter fun c => c.origin = some (pairOrigin x)) = written.toList) :
    withOrigin (some (pairOrigin x)) (applyChanges existing
      (writes ++ (reapedIds policies rows forecasts existing now).map .delete)) =
        pairView (isOwned policies (pairOrigin x)) existing now (some (pairOrigin x)) written := by
  have hanchored := anchored_self hids
  unfold pairView
  rw [withOrigin_pass, ← hwritten, ← withOrigin_applyChanges hids hanchored hwrites]
  refine List.filter_congr fun r hr => ?_
  rcases mem_withOrigin.1 hr with ⟨hr, horigin⟩
  -- a rule under the id of one in place is under its origin
  have hiff : r.id ∈ reapedIds policies rows forecasts existing now ↔
      r.id ∈ withdrawnIds (isOwned policies (pairOrigin x)) existing now (some (pairOrigin x)) := by
    unfold reapedIds withdrawnIds
    rw [List.mem_map, List.mem_map]
    refine exists_congr fun e => and_congr_left fun hid => ?_
    rw [List.mem_filter, List.mem_filter, mem_withOrigin, and_assoc]
    refine and_congr_right fun he => ?_
    have heo : e.origin = some (pairOrigin x) := by
      rw [← hanchored.applyChanges hids hwrites r hr e he hid.symm, horigin]
    rw [isReaped_pair hx heo, and_iff_right heo]
  simp [hiff]

/-- Rules of other origins that the reverse pass takes for its own are gone after a pass. -/
theorem withOrigin_withdrawn (hids : (existing.map LimitRule.id).Nodup)
    (hwrites : ∀ c ∈ writes, WritesOver existing c) {origin : String}
    (hnot : ∀ x ∈ firingPairs policies rows forecasts, pairOrigin x ≠ origin)
    (howned : ∀ r ∈ existing, r.origin = some origin → isOwned policies origin = true)
    (hnone : (writes.filter fun c => c.origin = some origin) = []) :
    withOrigin (some origin) (applyChanges existing
      (writes ++ (reapedIds policies rows forecasts existing now).map .delete)) = [] := by
  rw [withOrigin_pass, withOrigin_applyChanges hids (anchored_self hids) hwrites, hnone,
    List.filter_eq_nil_iff]
  intro r hr
  rcases mem_withOrigin.1 hr with ⟨hr, horigin⟩
  have hreaped : isReaped policies ((firingPairs policies rows forecasts).map pairOrigin) now r =
      true :=
    (isReaped_other hnot horigin).trans (howned r hr horigin)
  simp [(mem_reapedIds hids hr).2 hreaped]

/-- Rules of the other origins are as they were. -/
theorem withOrigin_untouched (hids : (existing.map LimitRule.id).Nodup)
    (hwrites : ∀ c ∈ writes, WritesOver existing c) {k : Option String}
    (hnot : ∀ x ∈ firingPairs policies rows forecasts, some (pairOrigin x) ≠ k)
    (hforeign : ∀ origin, k = some origin → isOwned policies origin = false)
    (hnone : (writes.filter fun c => c.origin = k) = []) :
    withOrigin k (applyChanges existing
      (writes ++ (reapedIds policies rows forecasts existing now).map .delete)) =
        withOrigin k existing := by
  rw [withOrigin_pass, withOrigin_applyChanges hids (anchored_self hids) hwrites, hnone,
    List.filter_eq_self.2 ?_]
  · rfl
  · intro r hr
    rcases mem_withOrigin.1 hr with ⟨hr, horigin⟩
    rw [decide_eq_true_eq, mem_reapedIds hids hr]
    cases k with
    | none => simp [isReaped, horigin]
    | some origin =>
      rw [isReaped_other (fun x hx heq => hnot x hx (congrArg some heq)) horigin,
        hforeign origin rfl]
      simp

end

end

end LightTrack
