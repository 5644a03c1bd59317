import LightTrack.Core.PolicyPass

/-! # What a guardrail pass settles

A pass settles a rule set when a second one would change nothing, every pair the policies act on has
one rule and it is in force, the policies' other rules are gone and nothing else has moved.  The
reverse pass judges the rules as they were, so a rule that was found expired is written and then
withdrawn.

* `pairView_iff` : when a pair is left with one rule in force that needs no write,
* `guardrails_converge_iff` : when a pass settles the rule set.
-/

namespace LightTrack

/-! ## One pair -/

/-- The rules under an origin that are not withdrawn. -/
def keptRules (owned : Bool) (now : Time) (rules : List LimitRule) : List LimitRule :=
  rules.filter fun r => !(owned && r.isExpired now)

/-- Rules of a pair that no pass would change. -/
def IsStanding (now : Time) (x : MarginPolicy × MarginRow) (view : List LimitRule) : Prop :=
  ∃ r, view = [r] ∧ r.isExpired now = false ∧ isDue now x r = false

/-- A pair settles in one pass.  Without a rule in place, its own must last.  With rules in place,
one of them must be kept; should that one need a write, it must be the one the pass finds, and what
is written must last. -/
def Settles (owned : Bool) (existing : List LimitRule) (now : Time)
    (x : MarginPolicy × MarginRow) : Prop :=
  (withOrigin (some (pairOrigin x)) existing = [] → 0 < asI64 x.1.expirySecs) ∧
    (withOrigin (some (pairOrigin x)) existing ≠ [] →
      ∃ r, keptRules owned now (withOrigin (some (pairOrigin x)) existing) = [r] ∧
        (isDue now x r = true →
          (withOrigin (some (pairOrigin x)) existing).head? = some r ∧
            0 < asI64 x.1.expirySecs))

theorem differs_self (r : LimitRule) : differs r r = false := by
  simp [differs]

/-- The rule of a pair outlives the instant of the pass when its policy says so. -/
theorem pairRule_isExpired {id : String} {now : Time} {x : MarginPolicy × MarginRow} :
    (pairRule id now x).isExpired now = false ↔ 0 < asI64 x.1.expirySecs := by
  have hexpiry : (pairRule id now x).isExpired now =
      decide (now + asI64 x.1.expirySecs * Time.second ≤ now) := rfl
  rw [hexpiry, decide_eq_false_iff_not, not_le]
  have hsecond : (0 : Int) < Time.second := by decide
  constructor
  · intro h
    exact pos_of_mul_pos_left (pos_of_lt_add_right h) hsecond.le
  · intro h
    exact lt_add_of_pos_right _ (mul_pos h hsecond)

/-- A rule that was just written for its whole life is not written again. -/
theorem pairRule_isDue {id : String} {now : Time} {x : MarginPolicy × MarginRow}
    (h : 0 < asI64 x.1.expirySecs) : isDue now x (pairRule id now x) = false := by
  have hsame : pairRule (pairRule id now x).id now x = pairRule id now x := rfl
  have hrenew : renewalDue (pairRule id now x) (pairRule id now x) now =
      decide (Time.numSeconds (now + asI64 x.1.expirySecs * Time.second - now) * 3 ≤
        max (Time.numSeconds (now + asI64 x.1.expirySecs * Time.second - now)) 1) := rfl
  have hsecs : Time.numSeconds (now + asI64 x.1.expirySecs * Time.second - now) =
      asI64 x.1.expirySecs := by
    unfold Time.numSeconds
    rw [add_sub_cancel_left, Int.mul_tdiv_cancel _ (by decide)]
  unfold isDue
  rw [hsame, differs_self, Bool.false_or, hrenew, hsecs, decide_eq_false_iff_not, not_le, max_lt_iff]
  generalize asI64 x.1.expirySecs = secs at h
  omega

/-- An expired rule is due. -/
theorem isDue_of_isExpired {now : Time} {x : MarginPolicy × MarginRow} {r : LimitRule}
    (h : r.isExpired now = true) : isDue now x r = true := by
  rcases (Option.any_eq_true _ _).1 h with ⟨expiresAt, hexpires, hexp⟩
  rw [decide_eq_true_eq] at hexp
  have hrenew : renewalDue r (pairRule r.id now x) now = true := by
    have hpast : Time.numSeconds (expiresAt - now) ≤ 0 := by
      have hnonneg : 0 ≤ (-(expiresAt - now)).tdiv Time.second :=
        Int.tdiv_nonneg (neg_nonneg.2 (Int.sub_nonpos_of_le hexp)) (by decide)
      rw [Int.neg_tdiv] at hnonneg
      exact neg_nonneg.1 hnonneg
    have hsome : renewalDue r (pairRule r.id now x) now =
        decide (Time.numSeconds (expiresAt - now) * 3 ≤
          max (Time.numSeconds (now + asI64 x.1.expirySecs * Time.second - now)) 1) := by
      unfold renewalDue
      rw [hexpires]
      rfl
    rw [hsome, decide_eq_true_eq]
    generalize Time.numSeconds (expiresAt - now) = left at hpast ⊢
    generalize Time.numSeconds (now + asI64 x.1.expirySecs * Time.second - now) = full
    omega
  unfold isDue
  rw [hrenew, Bool.or_true]

theorem proposed_of_head {existing : List LimitRule} {now : Time} {id : String}
    {x : MarginPolicy × MarginRow} :
    proposed existing now id x =
      match (withOrigin (some (pairOrigin x)) existing).head? with
      | none => some (.create (pairRule id now x))
      | some current =>
        if isDue now x current then some (.update (pairRule current.id now x)) else none := by
  have hfind : (withOrigin (some (pairOrigin x)) existing).head? =
      existing.find? fun r => r.origin == some (pairOrigin x) := by
    unfold withOrigin
    rw [List.head?_filter]
    congr 1
    funext r
    simp [beq_eq_decide]
  rw [hfind]
  rfl

section

variable {owned : Bool} {existing : List LimitRule} {now : Time} {id : String} {x : MarginPolicy × MarginRow}
  {k : Option String}

theorem mem_withdrawnIds (hids : (existing.map LimitRule.id).Nodup) {r : LimitRule}
    (hr : r ∈ withOrigin k existing) :
    r.id ∈ withdrawnIds owned existing now k ↔ (owned && r.isExpired now) = true := by
  unfold withdrawnIds
  rw [List.mem_map]
  constructor
  · rintro ⟨e, he, hid⟩
    rcases List.mem_filter.1 he with ⟨he, hexp⟩
    have hsame : e = r :=
      List.inj_on_of_nodup_map hids (mem_withOrigin.1 he).1 (mem_withOrigin.1 hr).1 hid
    rwa [← hsame]
  · intro hexp
    exact ⟨r, List.mem_filter.2 ⟨hr, hexp⟩, rfl⟩

theorem filter_withdrawnIds (hids : (existing.map LimitRule.id).Nodup) {rules : List LimitRule}
    (hsub : rules ⊆ withOrigin k existing) :
    (rules.filter fun r => r.id ∉ withdrawnIds owned existing now k) =
      keptRules owned now rules := by
  refine List.filter_congr fun r hr => ?_
  have hiff : r.id ∈ withdrawnIds owned existing now k ↔ (owned && r.isExpired now) = true :=
    mem_withdrawnIds hids (hsub hr)
  cases hgone : owned && r.isExpired now with
  | false => simpa [hgone] using hiff
  | true => simpa [hgone] using hiff

/-- Without a write the withdrawn rules go. -/
theorem pairView_none (hids : (existing.map LimitRule.id).Nodup) :
    pairView owned existing now k none = keptRules owned now (withOrigin k existing) :=
  filter_withdrawnIds hids (List.Subset.refl _)

/-- A rule created where there was none stays. -/
theorem pairView_create {r : LimitRule} (hnil : withOrigin k existing = []) :
    pairView owned existing now k (some (.create r)) = [r] := by
  unfold pairView withdrawnIds
  rw [hnil]
  simp [applyChanges, RuleChange.apply]

/-- A rewritten rule goes with the withdrawal of the one in its place. -/
theorem pairView_update {current r : LimitRule} {rest : List LimitRule}
    (hids : (existing.map LimitRule.id).Nodup) (hview : withOrigin k existing = current :: rest)
    (hid : r.id = current.id) :
    pairView owned existing now k (some (.update r)) =
      (if (owned && current.isExpired now) = true then [] else [r]) ++ keptRules owned now rest := by
  have hnodup : ((withOrigin k existing).map LimitRule.id).Nodup :=
    hids.sublist (List.filter_sublist.map _)
  rw [hview, List.map_cons, List.nodup_cons] at hnodup
  -- the other rules under the origin have other ids
  have hrest : (rest.map fun r' => if r'.id = r.id then r else r') = rest := by
    refine (List.map_congr_left ?_).trans (List.map_id _)
    intro r' hr'
    refine if_neg fun h => hnodup.1 ?_
    rw [← hid, ← h]
    exact List.mem_map_of_mem hr'
  have hwritten : applyChanges (withOrigin k existing) [.update r] = r :: rest := by
    show (withOrigin k existing).map (fun r' => if r'.id = r.id then r else r') = r :: rest
    rw [hview, List.map_cons, if_pos hid.symm, hrest]
  have hcurrent : current ∈ withOrigin k existing := hview ▸ List.mem_cons_self ..
  have hsub : rest ⊆ withOrigin k existing := hview ▸ List.subset_cons_self ..
  have hview' : pairView owned existing now k (some (.update r)) =
      (r :: rest).filter fun r => r.id ∉ withdrawnIds owned existing now k := by
    rw [← hwritten]
    rfl
  rw [hview', List.filter_cons, filter_withdrawnIds hids hsub, hid]
  by_cases hgone : (owned && current.isExpired now) = true
  · have hid' : current.id ∈ withdrawnIds owned existing now k :=
      (mem_withdrawnIds hids hcurrent).2 hgone
    rw [if_pos hgone, if_neg (by simp [hid'])]
    rfl
  · have hid' : current.id ∉ withdrawnIds owned existing now k :=
      fun h => hgone ((mem_withdrawnIds hids hcurrent).1 h)
    rw [if_neg hgone, if_pos (by simp [hid'])]
    rfl

/-- **A pair is left standing** by one pass exactly when it settles. -/
theorem pairView_iff (hids : (existing.map LimitRule.id).Nodup) :
    IsStanding now x
        (pairView owned existing now (some (pairOrigin x)) (proposed existing now id x)) ↔
      Settles owned existing now x := by
  unfold Settles
  rw [proposed_of_head]
  cases hview : withOrigin (some (pairOrigin x)) existing with
  | nil =>
    -- no rule in place: one is created
    rw [List.head?_nil, pairView_create hview]
    constructor
    · rintro ⟨r, hr, hexp, -⟩
      rw [List.singleton_inj] at hr
      rw [← hr, pairRule_isExpired] at hexp
      exact ⟨fun _ => hexp, fun h => absurd rfl h⟩
    · rintro ⟨hlasts, -⟩
      have hpos := hlasts rfl
      exact ⟨_, rfl, pairRule_isExpired.2 hpos, pairRule_isDue hpos⟩
  | cons current rest =>
    have hid : (pairRule current.id now x).id = current.id := rfl
    rw [List.head?_cons]
    simp only [reduceCtorEq, IsEmpty.forall_iff, ne_eq, not_false_eq_true, forall_const, true_and,
      Option.some.injEq]
    by_cases hwrite : isDue now x current = true ∧ ¬ (owned && current.isExpired now) = true
    · -- the rule the pass finds is written and stays
      rw [if_pos hwrite.1, pairView_update hids hview hid, if_neg hwrite.2]
      have hkept : keptRules owned now (current :: rest) = current :: keptRules owned now rest :=
        List.filter_cons_of_pos (by rw [Bool.eq_false_iff.2 hwrite.2]; rfl)
      rw [hkept, List.singleton_append]
      constructor
      · rintro ⟨r, hr, hexp, -⟩
        rw [List.cons.injEq] at hr
        rw [← hr.1, pairRule_isExpired] at hexp
        exact ⟨current, by rw [hr.2], fun _ => ⟨rfl, hexp⟩⟩
      · rintro ⟨r, hr, hlasts⟩
        rw [List.cons.injEq] at hr
        have hpos := (hlasts (hr.1 ▸ hwrite.1)).2
        exact ⟨_, by rw [hr.2], pairRule_isExpired.2 hpos, pairRule_isDue hpos⟩
    · -- nothing that stays is written
      have hkeep : pairView owned existing now (some (pairOrigin x))
          (if isDue now x current = true then some (.update (pairRule current.id now x)) else none) =
            keptRules owned now (current :: rest) := by
        by_cases hdue : isDue now x current = true
        · have hgone : (owned && current.isExpired now) = true := by
            by_contra hgone
            exact hwrite ⟨hdue, hgone⟩
          rw [if_pos hdue, pairView_update hids hview hid, if_pos hgone, List.nil_append]
          exact (List.filter_cons_of_neg (by simpa using hgone)).symm
        · rw [if_neg hdue, pairView_none hids, hview]
      rw [hkeep]
      constructor
      · rintro ⟨r, hr, -, hdue⟩
        refine ⟨r, hr, fun h => ?_⟩
        rw [hdue] at h
        cases h
      · rintro ⟨r, hr, hlasts⟩
        have hmem : r ∈ keptRules owned now (current :: rest) := by
          rw [hr]
          exact List.mem_singleton_self r
        have hstays := (List.mem_filter.1 hmem).2
        have hdue : isDue now x r = false := by
          by_contra hdue
          rw [Bool.not_eq_false] at hdue
          have hfirst := (hlasts hdue).1
          rw [← hfirst] at hdue hstays
          refine hwrite ⟨hdue, fun hgone => ?_⟩
          rw [hgone] at hstays
          cases hstays
        refine ⟨r, hr, ?_, hdue⟩
        by_contra hexp
        rw [isDue_of_isExpired (Bool.not_eq_false _ ▸ hexp)] at hdue
        cases hdue

end

/-! ## The whole pass -/

/-- What a settled rule set looks like: another pass changes nothing, every pair the policies act on
has one rule and it is in force, the policies' other rules are gone, and rules of other origins are
as they were. -/
structure Converged (policies : List MarginPolicy) (rows : List MarginRow)
    (forecasts : List MarginForecast) (existing final : List LimitRule) (now : Time) : Prop where
  steady : ∀ newId, evaluatePolicies newId policies rows forecasts final now = .ok []
  guarded : ∀ p ∈ policies, ∀ row ∈ rows, actsOn forecasts p row →
    ∃ r, withOrigin (some (p.originFor row.key)) final = [r] ∧ r.isExpired now = false
  withdrawn : ∀ r ∈ final, ∀ p ∈ policies, ∀ subject, r.origin = some (p.originFor subject) →
    ∃ row ∈ rows, row.key = subject ∧ actsOn forecasts p row
  untouched : ∀ k, (∀ p ∈ policies, ∀ subject, k ≠ some (p.originFor subject)) →
    withOrigin k final = withOrigin k existing

/-- A pass settles the rule set: its changes can be computed, and applied in order they converge. -/
def Converges (newId : ℕ → String) (policies : List MarginPolicy) (rows : List MarginRow)
    (forecasts : List MarginForecast) (existing : List LimitRule) (now : Time) : Prop :=
  ∃ changes, evaluatePolicies newId policies rows forecasts existing now = .ok changes ∧
    Converged policies rows forecasts existing (applyChanges existing changes) now

/-- Whether a pass settles a rule set, read off the rule set before it: every pair the policies act on
settles, with an expiry that is an instant and an origin that is its own, and no rule is left behind
under an origin of the policies that the reverse pass does not take for its own. -/
structure Settling (policies : List MarginPolicy) (rows : List MarginRow)
    (forecasts : List MarginForecast) (existing : List LimitRule) (now : Time) : Prop where
  fits : ∀ x ∈ firingPairs policies rows forecasts, ExpiryFits now x.1
  alone : ∀ x ∈ firingPairs policies rows forecasts, IsAlone policies x
  settles : ∀ x ∈ firingPairs policies rows forecasts,
    Settles (isOwned policies (pairOrigin x)) existing now x
  owned : ∀ r ∈ existing, ∀ p ∈ policies, ∀ subject, r.origin = some (p.originFor subject) →
    (∀ x ∈ firingPairs policies rows forecasts, pairOrigin x ≠ p.originFor subject) →
      isOwned policies (p.originFor subject) = true

section

variable {newId : ℕ → String} {policies : List MarginPolicy} {rows : List MarginRow}
  {forecasts : List MarginForecast} {existing : List LimitRule} {now : Time}

/-- With ids that are free of colons, origins keep apart and nothing is left behind. -/
theorem SweepInputs.settling_of_colonFree (h : SweepInputs newId policies rows existing)
    (hcolon : ∀ p ∈ policies, ':' ∉ p.id.toList)
    (hfits : ∀ x ∈ firingPairs policies rows forecasts, ExpiryFits now x.1)
    (hsettles : ∀ x ∈ firingPairs policies rows forecasts, Settles true existing now x) :
    Settling policies rows forecasts existing now := by
  refine ⟨hfits, fun x hx => h.isAlone hcolon hx, fun x hx => ?_, fun _ _ p hp subject _ _ =>
    isOwned_originFor hp (hcolon p hp) subject⟩
  have hp := (mem_firingPairs.1 hx).1
  rw [show isOwned policies (pairOrigin x) = true from isOwned_originFor hp (hcolon _ hp) _]
  exact hsettles x hx

/-- No write is proposed for a pair exactly when the rule found needs none. -/
theorem proposed_eq_none_iff {id : String} {x : MarginPolicy × MarginRow} {r : LimitRule}
    (hview : withOrigin (some (pairOrigin x)) existing = [r]) :
    proposed existing now id x = none ↔ isDue now x r = false := by
  rw [proposed_of_head, hview, List.head?_cons]
  cases hdue : isDue now x r <;> simp [hdue]

/-- A rule that no write is due for is scoped to the row's subject. -/
theorem scope_of_not_isDue {x : MarginPolicy × MarginRow} {r : LimitRule}
    (h : isDue now x r = false) : r.scope = some (.customer x.2.key) := by
  have hdiffers : differs r (pairRule r.id now x) = false := (Bool.or_eq_false_iff.1 h).1
  have hscope : (r.scope != (pairRule r.id now x).scope) = false :=
    (Bool.or_eq_false_iff.1 hdiffers).2
  exact bne_eq_false_iff_eq.1 hscope

/-- What the changes of a pass leave behind. -/
def passResult (newId : ℕ → String) (policies : List MarginPolicy) (rows : List MarginRow)
    (forecasts : List MarginForecast) (existing : List LimitRule) (now : Time) : List LimitRule :=
  applyChanges existing
    (passWrites newId existing now (firingPairs policies rows forecasts) ++
      (reapedIds policies rows forecasts existing now).map .delete)

theorem converges_iff_converged :
    Converges newId policies rows forecasts existing now ↔
      (∀ x ∈ firingPairs policies rows forecasts, ExpiryFits now x.1) ∧
        Converged policies rows forecasts existing
          (passResult newId policies rows forecasts existing now) now := by
  unfold Converges passResult
  constructor
  · rintro ⟨changes, hchanges, hfinal⟩
    rcases evaluatePolicies_eq_ok_iff'.1 hchanges with ⟨hfits, rfl⟩
    exact ⟨hfits, hfinal⟩
  · rintro ⟨hfits, hfinal⟩
    exact ⟨_, evaluatePolicies_eq_ok_iff'.2 ⟨hfits, rfl⟩, hfinal⟩

/-- After a pass a pair is standing exactly when it settles, when its origin is its own. -/
theorem SweepInputs.isStanding_iff (h : SweepInputs newId policies rows existing)
    {x : MarginPolicy × MarginRow} (halone : IsAlone policies x)
    (hx : x ∈ firingPairs policies rows forecasts) :
    IsStanding now x (withOrigin (some (pairOrigin x))
        (passResult newId policies rows forecasts existing now)) ↔
      Settles (isOwned policies (pairOrigin x)) existing now x := by
  rcases h.passWrites_origin halone hx with ⟨n, hn⟩
  unfold passResult
  rw [withOrigin_pair h.ruleIds h.passWrites_writesOver hx hn, pairView_iff h.ruleIds]

/-- In a settled rule set the rules of the pairs are standing. -/
theorem Converged.isStanding {final : List LimitRule}
    (h : Converged policies rows forecasts existing final now) {x : MarginPolicy × MarginRow}
    (hx : x ∈ firingPairs policies rows forecasts) :
    IsStanding now x (withOrigin (some (pairOrigin x)) final) := by
  rcases mem_firingPairs.1 hx with ⟨hp, hrow, hacts⟩
  rcases h.guarded x.1 hp x.2 hrow hacts with ⟨r, hview, hexp⟩
  refine ⟨r, hview, hexp, ?_⟩
  -- a second pass writes nothing for the pair
  rcases evaluatePolicies_eq_ok_iff'.1 (h.steady Nat.repr) with ⟨-, hnil⟩
  rcases List.mem_iff_getElem?.1 hx with ⟨n, hn⟩
  have hnone := List.filterMap_eq_nil_iff.1 (List.append_eq_nil_iff.1 hnil.symm).1 (x, n)
    (List.mk_mem_zipIdx_iff_getElem?.2 hn)
  exact (proposed_eq_none_iff hview).1 hnone

/-- In a settled rule set the origins of the pairs are their own: a rule has one scope. -/
theorem Converged.isAlone {final : List LimitRule}
    (hids : (policies.map MarginPolicy.id).Nodup)
    (h : Converged policies rows forecasts existing final now) {x : MarginPolicy × MarginRow}
    (hx : x ∈ firingPairs policies rows forecasts) : IsAlone policies x := by
  intro p hp subject heq
  rcases h.isStanding hx with ⟨r, hview, -, hdue⟩
  have hr : r ∈ withOrigin (some (pairOrigin x)) final := by
    rw [hview]
    exact List.mem_singleton_self r
  rcases mem_withOrigin.1 hr with ⟨hr, horigin⟩
  rcases h.withdrawn r hr p hp subject (horigin.trans (congrArg some heq.symm)) with
    ⟨row, hrow, rfl, hacts⟩
  have hpair : (p, row) ∈ firingPairs policies rows forecasts :=
    mem_firingPairs.2 ⟨hp, hrow, hacts⟩
  rcases h.isStanding hpair with ⟨r', hview', -, hdue'⟩
  rw [show pairOrigin (p, row) = pairOrigin x from heq, hview, List.singleton_inj] at hview'
  rw [← hview'] at hdue'
  have hscope := (scope_of_not_isDue hdue').symm.trans (scope_of_not_isDue hdue)
  have hkey : row.key = x.2.key := LimitScope.customer.inj (Option.some.inj hscope)
  refine ⟨?_, hkey⟩
  unfold pairOrigin at heq
  rw [hkey] at heq
  exact List.inj_on_of_nodup_map hids hp (mem_firingPairs.1 hx).1 (originFor_id heq)

/-- A settled rule set was settled pair by pair. -/
theorem Converges.settling (h : SweepInputs newId policies rows existing)
    (hconv : Converges newId policies rows forecasts existing now) :
    Settling policies rows forecasts existing now := by
  rcases converges_iff_converged.1 hconv with ⟨hfits, hfinal⟩
  have halone : ∀ x ∈ firingPairs policies rows forecasts, IsAlone policies x :=
    fun x hx => hfinal.isAlone h.policyIds hx
  refine ⟨hfits, halone, fun x hx => (h.isStanding_iff (halone x hx) hx).1 (hfinal.isStanding hx), ?_⟩
  intro r hr p hp subject horigin hnot
  by_contra hforeign
  -- a rule the reverse pass does not take for its own stays
  have hstays : withOrigin (some (p.originFor subject))
      (passResult newId policies rows forecasts existing now) =
        withOrigin (some (p.originFor subject)) existing := by
    refine withOrigin_untouched h.ruleIds h.passWrites_writesOver
      (fun x hx heq => hnot x hx (Option.some.inj heq)) ?_
      (h.passWrites_other fun x hx heq => hnot x hx (Option.some.inj heq).symm)
    intro origin heq
    rw [← Option.some.inj heq]
    exact Bool.not_eq_true _ ▸ hforeign
  have hmem : r ∈ withOrigin (some (p.originFor subject)) existing :=
    mem_withOrigin.2 ⟨hr, horigin⟩
  rw [← hstays] at hmem
  rcases hfinal.withdrawn r (mem_withOrigin.1 hmem).1 p hp subject horigin with
    ⟨row, hrow, rfl, hacts⟩
  exact hnot (p, row) (mem_firingPairs.2 ⟨hp, hrow, hacts⟩) rfl

/-- A pass over pairs that settle leaves a settled rule set. -/
theorem Settling.converges (h : SweepInputs newId policies rows existing)
    (hall : Settling policies rows forecasts existing now) :
    Converges newId policies rows forecasts existing now := by
  have hstanding : ∀ x ∈ firingPairs policies rows forecasts, IsStanding now x
      (withOrigin (some (pairOrigin x)) (passResult newId policies rows forecasts existing now)) :=
    fun x hx => (h.isStanding_iff (hall.alone x hx) hx).2 (hall.settles x hx)
  have hgone : ∀ p ∈ policies, ∀ subject,
      (∀ x ∈ firingPairs policies rows forecasts, pairOrigin x ≠ p.originFor subject) →
        withOrigin (some (p.originFor subject))
          (passResult newId policies rows forecasts existing now) = [] :=
    fun p hp subject hnot => withOrigin_withdrawn h.ruleIds h.passWrites_writesOver hnot
      (fun r hr horigin => hall.owned r hr p hp subject horigin hnot)
      (h.passWrites_other fun x hx heq => hnot x hx (Option.some.inj heq).symm)
  refine converges_iff_converged.2 ⟨hall.fits, ?_, ?_, ?_, ?_⟩
  · intro newId'
    rw [evaluatePolicies_eq_ok_iff']
    refine ⟨hall.fits, (List.append_eq_nil_iff.2 ⟨?_, ?_⟩).symm⟩
    · refine List.filterMap_eq_nil_iff.2 fun y hy => ?_
      have hy := List.fst_mem_of_mem_zipIdx hy
      rcases hstanding y.1 hy with ⟨r, hview, -, hdue⟩
      exact (proposed_eq_none_iff hview).2 hdue
    · refine List.map_eq_nil_iff.2 (List.map_eq_nil_iff.2 (List.filter_eq_nil_iff.2 ?_))
      intro r hr hreaped
      rcases (Option.any_eq_true _ _).1 hreaped with ⟨origin, horigin, hwhy⟩
      rcases exists_of_isOwned (Bool.and_eq_true_iff.1 hwhy).1 with ⟨p, hp, subject, rfl⟩
      have hmem := mem_withOrigin.2 ⟨hr, horigin⟩
      by_cases hnot : ∀ x ∈ firingPairs policies rows forecasts,
          pairOrigin x ≠ p.originFor subject
      · rw [hgone p hp subject hnot] at hmem
        cases hmem
      · -- the one rule of a pair that fires is in force
        push Not at hnot
        rcases hnot with ⟨x, hx, hpair⟩
        rcases hstanding x hx with ⟨r', hview, hexp, -⟩
        rw [← hpair, hview, List.mem_singleton] at hmem
        rw [isReaped_pair hx (horigin.trans (congrArg some hpair.symm)), hmem, hexp,
          Bool.and_false] at hreaped
        cases hreaped
  · intro p hp row hrow hacts
    rcases hstanding (p, row) (mem_firingPairs.2 ⟨hp, hrow, hacts⟩) with ⟨r, hview, hexp, -⟩
    exact ⟨r, hview, hexp⟩
  · intro r hr p hp subject horigin
    by_contra hnot
    have hnone := hgone p hp subject ?_
    · have hmem := mem_withOrigin.2 ⟨hr, horigin⟩
      rw [hnone] at hmem
      cases hmem
    · intro x hx hpair
      rcases hall.alone x hx p hp subject hpair.symm with ⟨rfl, rfl⟩
      rcases mem_firingPairs.1 hx with ⟨-, hrow, hacts⟩
      exact hnot ⟨x.2, hrow, rfl, hacts⟩
  · intro k hk
    refine withOrigin_untouched h.ruleIds h.passWrites_writesOver ?_ ?_
      (h.passWrites_other fun x hx => hk x.1 (mem_firingPairs.1 hx).1 x.2.key)
    · intro x hx heq
      exact hk x.1 (mem_firingPairs.1 hx).1 x.2.key heq.symm
    · intro origin heq
      by_contra howned
      rcases exists_of_isOwned (Bool.not_eq_false _ ▸ howned) with ⟨p, hp, subject, rfl⟩
      exact hk p hp subject heq

/-- **A pass settles the rule set** exactly when every pair the policies act on settles, with an
expiry that is an instant and an origin that is its own, and nothing is left behind. -/
theorem guardrails_converge_iff (h : SweepInputs newId policies rows existing) :
    Converges newId policies rows forecasts existing now ↔
      Settling policies rows forecasts existing now :=
  ⟨fun hconv => hconv.settling h, fun hall => hall.converges h⟩

end

/-! ## Two passes -/

/-- A policy that warns of a loss, in force for a day. -/
def lossPolicy : MarginPolicy where
  id := "pol-1"
  projectId := "proj"
  trigger := .negativeMargin
  minCostUsd := 1
  action := .warn

/-- A subject at a loss. -/
def lossRow (key : String) : MarginRow where
  key := key
  llmCostUsd := 40
  grossMarginUsd := -30
  marginPct := some (-3)

/-- Ids to mint. -/
def mintedId (n : ℕ) : String := String.ofList (List.replicate (n + 1) 'n')

theorem mintedId_ne (n : ℕ) : "rule-1" ≠ mintedId n := by
  intro h
  have hhead : "rule-1".toList.head? = some 'n' := by
    rw [h]
    unfold mintedId
    rw [String.toList_ofList, List.replicate_succ, List.head?_cons]
  exact absurd hhead (by decide)

/-- The rule of the pair, as a pass at instant 0 wrote it. -/
def lossRule : LimitRule := pairRule "rule-1" 0 (lossPolicy, lossRow "cus-a")

theorem lossRule_inputs (keys : List String) (hkeys : keys.Nodup) :
    SweepInputs mintedId [lossPolicy] (keys.map lossRow) [lossRule] := by
  refine ⟨List.nodup_singleton _, ?_, List.nodup_singleton _, ?_⟩
  · have hkey : MarginRow.key ∘ lossRow = id := rfl
    rw [List.map_map, hkey, List.map_id]
    exact hkeys
  · intro n r hr
    rw [List.mem_singleton] at hr
    rw [hr]
    exact mintedId_ne n

/-- A pair of the policy fires for every subject at a loss. -/
theorem mem_firingPairs_loss {keys : List String} {x : MarginPolicy × MarginRow} :
    x ∈ firingPairs [lossPolicy] (keys.map lossRow) [] ↔
      ∃ key ∈ keys, x = (lossPolicy, lossRow key) := by
  rw [mem_firingPairs, List.mem_singleton]
  constructor
  · rintro ⟨hp, hrow, -⟩
    rcases List.mem_map.1 hrow with ⟨key, hkey, hrow⟩
    exact ⟨key, hkey, Prod.ext hp hrow.symm⟩
  · rintro ⟨key, hkey, rfl⟩
    refine ⟨rfl, List.mem_map_of_mem hkey, rfl, ?_, ?_⟩
    · show ¬ (40 : ℚ) < 1
      decide +kernel
    · show decide ((-30 : ℚ) < 0) = true
      decide +kernel

/-- A rule that is found expired is renewed and then withdrawn, under a policy that still fires. -/
theorem expired_guardrail_withdrawn :
    lossPolicy.validate = .ok () ∧
      SweepInputs mintedId [lossPolicy] (["cus-a"].map lossRow) [lossRule] ∧
      evaluatePolicies mintedId [lossPolicy] (["cus-a"].map lossRow) [] [lossRule]
          (86400 * Time.second) =
        .ok [.update (pairRule "rule-1" (86400 * Time.second) (lossPolicy, lossRow "cus-a")),
          .delete "rule-1"] ∧
      ¬ Converges mintedId [lossPolicy] (["cus-a"].map lossRow) [] [lossRule]
        (86400 * Time.second) := by
  refine ⟨by decide +kernel, lossRule_inputs _ (List.nodup_singleton _), by decide +kernel, ?_⟩
  intro hconv
  have hpair : (lossPolicy, lossRow "cus-a") ∈
      firingPairs [lossPolicy] (["cus-a"].map lossRow) [] :=
    mem_firingPairs_loss.2 ⟨"cus-a", List.mem_singleton_self _, rfl⟩
  have hsettles :=
    ((hconv.settling (lossRule_inputs _ (List.nodup_singleton _))).settles _ hpair).2 (by decide +kernel)
  rcases hsettles with ⟨r, hkept, -⟩
  have hnone : keptRules (isOwned [lossPolicy] (pairOrigin (lossPolicy, lossRow "cus-a")))
      (86400 * Time.second)
      (withOrigin (some (pairOrigin (lossPolicy, lossRow "cus-a"))) [lossRule]) = [] := by
    decide +kernel
  rw [hnone] at hkept
  cases hkept

/-- A pass in the last third of a rule's life, with another subject that has no rule yet. -/
theorem guardrails_converge_iff_sample :
    Converges mintedId [lossPolicy] (["cus-a", "cus-b"].map lossRow) [] [lossRule]
      (60000 * Time.second) := by
  refine (guardrails_converge_iff (lossRule_inputs _ (by decide))).2 ?_
  refine (lossRule_inputs _ (by decide)).settling_of_colonFree (by decide +kernel) ?_ ?_
  · intro x hx
    rcases mem_firingPairs_loss.1 hx with ⟨key, -, rfl⟩
    show ExpiryFits (60000 * Time.second) lossPolicy
    decide +kernel
  · intro x hx
    rcases mem_firingPairs_loss.1 hx with ⟨key, hkey, rfl⟩
    rw [List.mem_cons, List.mem_singleton] at hkey
    rcases hkey with rfl | rfl
    · refine ⟨fun _ => by decide +kernel, fun _ => ⟨lossRule, by decide +kernel, fun _ => ?_⟩⟩
      exact ⟨by decide +kernel, by decide +kernel⟩
    · exact ⟨fun _ => by decide +kernel, fun h => absurd (by decide +kernel) h⟩

end LightTrack
