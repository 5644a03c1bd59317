import LightTrack.Api.LimitsUsage
import LightTrack.Core.ModelName
import LightTrack.Store.ScopeUsage

/-! # Two surfaces, one cap

The breakdown puts a cap beside every value it binds, with the usage that was fetched for
the request: the request's window, under that one value.  The cap itself is measured over
its own window and over everything its scope covers.

* `SurfacesAgree` : what the two surfaces owe to each other,
* `scopeBindsRow_iff` : the breakdown shows a rule beside every value its scope contains,
* `surfaces_agree_iff` : when the two surfaces agree.
-/

namespace LightTrack

/-! ## Agreement -/

/-- The value of the scope's dimension on a call. -/
def LimitScope.dimOf (s : LimitScope) (d : ScopeDims) : Option String :=
  match s with
  | .provider _ => some d.provider
  | .model _ => some d.model
  | .name _ => d.name
  | .apiKey _ => d.apiKeyId
  | .customer _ => d.customerId

/-- A scope contains a value of a dimension: every call with that value falls under it. -/
def LimitScope.ContainsRow (s : LimitScope) (dimension : String) (value : Option String) : Prop :=
  s.kindStr = dimension ∧
    ∃ v, value = some v ∧ ∀ d : ScopeDims, s.dimOf d = some v → s.matches d = true

/-- Where a cap stands. -/
def LimitStatus.figures (s : LimitStatus) : ℚ × WithTop ℚ × WithTop ℚ × Bool × Bool :=
  (s.current, s.threshold, s.ratio, s.warning, s.breached)

open LimitsUsage in
/-- A breakdown agrees with what the status surface reports of the same rules: each status beside a
value is the one reported for its rule, each active rule whose scope contains a value is beside it,
and the shares of all values make up the whole. -/
structure SurfacesAgree (active : List LimitRule) (statuses : Except StoreError (List LimitStatus))
    (resp : UsageByScopeResp) : Prop where
  same : ∀ e ∈ resp.entries, ∀ s ∈ e.rules, ∃ ss, statuses = .ok ss ∧
    ∃ s' ∈ ss, s'.ruleId = s.ruleId ∧ s.figures = s'.figures
  shown : ∀ r ∈ active, ∀ e ∈ resp.entries,
    (∃ s, r.scope = some s ∧ s.ContainsRow resp.dimension e.value) →
      ∃ s ∈ e.rules, s.ruleId = r.id
  shares : resp.truncated = false → 0 < resp.total.costForLimits →
    (resp.entries.map ScopeEntry.costSharePct).sum = 100

/-! ## Which rules are shown -/

/-- A model cap asked about a call is the cap asked without the provider. -/
theorem matches_model (v : String) (d : ScopeDims) :
    (LimitScope.model v).matches d = (LimitScope.model v).matchesModelRow "" d.model := by
  unfold LimitScope.matchesModelRow LimitScope.matches ScopeDims.new
  simp only
  rw [family_canonicalize d.provider "" d.model, family_canonicalize d.provider "" v]

/-- Any other cap is about one value. -/
theorem matches_iff_dimOf {s : LimitScope} (hs : s.foldsCanonicalFamily = false) (d : ScopeDims) :
    s.matches d = true ↔ s.dimOf d = some s.value := by
  cases s with
  | model v => cases hs
  | provider v => simp [LimitScope.matches, LimitScope.dimOf, LimitScope.value]
  | name v => simp [LimitScope.matches, LimitScope.dimOf, LimitScope.value]
  | apiKey v => simp [LimitScope.matches, LimitScope.dimOf, LimitScope.value]
  | customer v => simp [LimitScope.matches, LimitScope.dimOf, LimitScope.value]

/-- Every value is that of some call. -/
theorem exists_dimOf (s : LimitScope) (v : String) : ∃ d, s.dimOf d = some v := by
  refine ⟨⟨v, v, some v, some v, some v⟩, ?_⟩
  cases s <;> rfl

theorem scopeBindsRow_of_value {s : LimitScope} (hs : s.foldsCanonicalFamily = false)
    (dimension : String) (value : Option String) :
    LimitsUsage.scopeBindsRow s dimension value = true ↔
      s.kindStr = dimension ∧ value = some s.value := by
  unfold LimitsUsage.scopeBindsRow
  by_cases hkind : s.kindStr = dimension
  · rw [if_neg (by simp [hkind])]
    cases s with
    | model v => cases hs
    | _ => exact beq_iff_eq.trans ⟨fun h => ⟨hkind, h.symm⟩, fun h => h.2.symm⟩
  · simp [hkind]

theorem scopeBindsRow_model (v dimension : String) (value : Option String) :
    LimitsUsage.scopeBindsRow (.model v) dimension value = true ↔
      (LimitScope.model v).kindStr = dimension ∧
        ∃ m, value = some m ∧ (LimitScope.model v).matchesModelRow "" m = true := by
  unfold LimitsUsage.scopeBindsRow
  by_cases hkind : (LimitScope.model v).kindStr = dimension
  · rw [if_neg (by simp [hkind])]
    cases value <;> simp [hkind]
  · simp [hkind]

/-- **The rules beside a value** are those of its dimension whose scope contains it. -/
theorem scopeBindsRow_iff (s : LimitScope) (dimension : String) (value : Option String) :
    LimitsUsage.scopeBindsRow s dimension value = true ↔ s.ContainsRow dimension value := by
  unfold LimitScope.ContainsRow
  cases hs : s.foldsCanonicalFamily with
  | false =>
    rw [scopeBindsRow_of_value hs]
    refine and_congr_right fun _ => ?_
    constructor
    · rintro rfl
      exact ⟨s.value, rfl, fun d hd => (matches_iff_dimOf hs d).2 hd⟩
    · rintro ⟨v, rfl, h⟩
      rcases exists_dimOf s v with ⟨d, hd⟩
      rw [← hd]
      exact (matches_iff_dimOf hs d).1 (h d hd)
  | true =>
    cases s with
    | model v =>
      rw [scopeBindsRow_model]
      refine and_congr_right fun _ => exists_congr fun m => and_congr_right fun _ => ?_
      constructor
      · intro h d hd
        rw [matches_model, Option.some.inj hd]
        exact h
      · intro h
        exact h (.new "" m none) rfl
    | _ => cases hs

/-! ## What is reported -/

section Reported

variable {st : LimitsState} {project : String} {now : Time}

@[simp] theorem ruleStatus_ruleId (u : Usage) (r : LimitRule) :
    (st.ruleStatus project now u r).ruleId = r.id := rfl

/-- Two statuses of one rule stand at the same figures exactly if its metric does. -/
theorem figures_ruleStatus_eq_iff (u u' : Usage) (r : LimitRule) :
    (st.ruleStatus project now u r).figures = (st.ruleStatus project now u' r).figures ↔
      u.metricValue r.metric = u'.metricValue r.metric := by
  constructor
  · intro h
    exact congrArg Prod.fst h
  · intro h
    unfold LimitsState.ruleStatus evaluateRuleResolvedAt LimitRule.evaluateResolvedAt
      LimitStatus.figures
    simp only
    rw [h]

theorem nodup_activeRules (st : LimitsState) (project : String) (now : Time) :
    ((st.activeRules project now).map LimitRule.id).Nodup := by
  unfold LimitsState.activeRules LimitsState.listLimitRules
  rw [List.filter_filter]
  exact st.rules.ids_nodup.sublist (List.filter_sublist.map _)

/-- The status surface reports these figures for a rule exactly if the usage of every active rule
can be read, and that of the rule itself is at them. -/
theorem reported_iff {r : LimitRule} (hr : r ∈ st.activeRules project now) (u : Usage) :
    (∃ ss, st.evaluateProjectLimits project now = .ok ss ∧
        ∃ s' ∈ ss, s'.ruleId = r.id ∧ (st.ruleStatus project now u r).figures = s'.figures) ↔
      (∀ r' ∈ st.activeRules project now, ∃ u', st.usageOfKey project now r'.usageKey = .ok u') ∧
        ∀ u', st.usageOfKey project now r.usageKey = .ok u' →
          u.metricValue r.metric = u'.metricValue r.metric := by
  rw [LimitsState.evaluateProjectLimits_eq]
  have hstatus : ∀ r' s, ((st.usageOfKey project now r'.usageKey).map fun u' =>
      st.ruleStatus project now u' r') = .ok s ↔
        ∃ u', st.usageOfKey project now r'.usageKey = .ok u' ∧
          s = st.ruleStatus project now u' r' := fun _ _ => Traverse.map_eq_ok_iff
  constructor
  · rintro ⟨ss, hss, s', hs', hid, hfigures⟩
    rcases Traverse.mapM_mem hss with ⟨hfrom, hto⟩
    refine ⟨?_, ?_⟩
    · intro r' hr'
      rcases hto r' hr' with ⟨s, -, hs⟩
      rcases (hstatus r' s).1 hs with ⟨u', hu', -⟩
      exact ⟨u', hu'⟩
    · intro u' hu'
      rcases hfrom s' hs' with ⟨r', hr', hs⟩
      rcases (hstatus r' s').1 hs with ⟨u'', hu'', rfl⟩
      -- the status with the rule's id is the rule's
      have hsame : r' = r := List.inj_on_of_nodup_map (nodup_activeRules st project now) hr' hr hid
      subst hsame
      rw [hu''] at hu'
      rw [← Except.ok.inj hu']
      exact (figures_ruleStatus_eq_iff u u'' r').1 hfigures
  · rintro ⟨hread, hvalue⟩
    rcases Traverse.exists_mapM (f := fun r' => (st.usageOfKey project now r'.usageKey).map fun u' =>
        st.ruleStatus project now u' r') (l := st.activeRules project now) (by
      intro r' hr'
      rcases hread r' hr' with ⟨u', hu'⟩
      exact ⟨_, (hstatus r' _).2 ⟨u', hu', rfl⟩⟩) with ⟨ss, hss⟩
    rcases (Traverse.mapM_mem hss).2 r hr with ⟨s', hs', hs⟩
    rcases (hstatus r s').1 hs with ⟨u', hu', rfl⟩
    exact ⟨ss, hss, _, hs', rfl, (figures_ruleStatus_eq_iff u u' r).2 (hvalue u' hu')⟩

end Reported

/-! ## When the surfaces agree -/

section Balance

variable (rows : List EventRow) (project : String)

/-- The calls that only the value is charged with: the rule's window or scope misses them. -/
def rowOnly (since since' : Time) (column s : LimitScope) (k : SqlValue) : List EventRow :=
  rows.filter fun r => (inWindow project since r && scopeExpr column r == k) &&
    !(inWindow project since' r && s.covers r)

/-- The calls that only the rule is charged with: they are outside the requested window, or under
another value that the scope covers. -/
def ruleOnly (since since' : Time) (column s : LimitScope) (k : SqlValue) : List EventRow :=
  rows.filter fun r => (inWindow project since' r && s.covers r) &&
    !(inWindow project since r && scopeExpr column r == k)

/-- What only the value is charged with weighs as much as what only the rule is charged with. -/
def Balanced (since since' : Time) (column s : LimitScope) (k : SqlValue) : LimitMetric → Prop
  | .calls =>
    (rowOnly rows project since since' column s k).length =
      (ruleOnly rows project since since' column s k).length
  | .tokens =>
    if s.foldsCanonicalFamily then
      -- the tokens of a model scope wrap, and carry what the clamp of each group added
      2 * i64Bound ∣ (tokenSums (ruleOnly rows project since since' column s k)).sum +
        clampLossOf rows project since' s -
          (tokenSums (rowOnly rows project since since' column s k)).sum
    else
      (tokenSums (rowOnly rows project since since' column s k)).sum =
        (tokenSums (ruleOnly rows project since since' column s k)).sum
  | .costUsd =>
    chargeOf (rows.filter fun r => inWindow project since r && scopeExpr column r == k) =
      chargeOf (scopeRows rows project since' s)

variable {rows project}

/-- The calls of a value and of a rule, the tokens of a value and of a rule. -/
theorem balanced_iff {since since' : Time} {column s : LimitScope} {k : SqlValue}
    (hfits : GroupFits (rows.filter fun r => inWindow project since r && scopeExpr column r == k))
    (metric : LimitMetric) :
    (((rows.filter fun r => inWindow project since r && scopeExpr column r == k).map
        EventRow.contribution).sum.metricValue metric =
      ({ ((scopeRows rows project since' s).map EventRow.contribution).sum with
          tokens := scopeTokens rows project since' s } : Usage).metricValue metric) ↔
      Balanced rows project since since' column s k metric := by
  cases metric with
  | costUsd =>
    have hrow := costForLimits_sum
      (rows.filter fun r => inWindow project since r && scopeExpr column r == k)
    have hrule := costForLimits_sum (scopeRows rows project since' s)
    rw [← costForLimits_with_tokens _ (scopeTokens rows project since' s)] at hrule
    unfold Balanced Usage.metricValue
    simp only
    rw [hrow, hrule]
  | calls =>
    have hsplit := Group.sum_filter_eq_iff
      (fun r => inWindow project since r && scopeExpr column r == k)
      (fun r => inWindow project since' r && s.covers r) (fun _ => (1 : Int)) rows
    simp only [← length_eq_sum] at hsplit
    unfold Balanced Usage.metricValue
    simp only
    rw [sum_contribution, sum_contribution]
    simp only
    unfold scopeRows rowOnly ruleOnly
    exact_mod_cast hsplit
  | tokens =>
    have hsplit := Group.sum_filter_sub
      (fun r => inWindow project since r && scopeExpr column r == k)
      (fun r => inWindow project since' r && s.covers r)
      (fun r => r.inputTokens + r.outputTokens) rows
    have hrow := hfits.2.inI64_sum (by decide)
    rw [zero_add] at hrow
    unfold Balanced Usage.metricValue
    simp only
    rw [sum_contribution]
    simp only
    rw [Int.cast_inj]
    unfold scopeTokens
    cases hs : s.foldsCanonicalFamily with
    | false =>
      rw [if_neg Bool.false_ne_true, if_neg Bool.false_ne_true]
      unfold tokenSums scopeRows rowOnly ruleOnly
      exact ⟨fun h => by omega, fun h => by omega⟩
    | true =>
      -- the tokens of the value are an `i64`, so equal to the wrap of what they are congruent to
      have hwrap := wrapI64_emod ((tokenSums (scopeRows rows project since' s)).sum +
        clampLossOf rows project since' s)
      rw [if_pos rfl, if_pos rfl]
      unfold tokenSums scopeRows rowOnly ruleOnly at *
      constructor
      · intro h
        rw [← h] at hwrap
        unfold i64Bound at *
        omega
      · intro h
        refine hrow.eq_of_emod (wrapI64_inI64 _) ?_
        rw [hwrap]
        unfold i64Bound at *
        omega

end Balance

open LimitsUsage in
/-- A value is among the returned ones: fewer than `limit` rank before it. -/
def Returned (groups : List (SqlValue × List EventRow)) (limit : ℕ)
    (g : SqlValue × List EventRow) : Prop :=
  (groups.filter fun g' => decide (rowRank (scopeRow g') < rowRank (scopeRow g))).length < limit

/-- Whether the usage of a rule's own window and scope can be read. -/
def RuleReads (rows : List EventRow) (project : String) (now : Time) (r : LimitRule) : Prop :=
  match r.scope with
  | none => GroupFits (rows.filter (inWindow project (r.window.since now)))
  | some s => ScopeReads rows project (r.window.since now) s

/-- Whether the breakdown can be read: every value of the dimension is a text or NULL, and tokens can
be added up, under each value and in all. -/
def BreakdownReads (rows : List EventRow) (project : String) (since : Time) (column : LimitScope) :
    Prop :=
  (∀ g ∈ scopeGroups rows project since column, g.1.IsTextual ∧ GroupFits g.2) ∧
    GroupFits (rows.filter (inWindow project since))

open LimitsUsage in
/-- The condition under which the two surfaces agree on the answer to a request: beside every
returned value, each cap is balanced between the value and the rule, with the usage of all active
rules readable; and if no value is left out, the charges of the values add up to that of the whole
window. -/
def SurfacesCondition (st : LimitsState) (project : String) (now : Time) (q : UsageParams)
    (column : LimitScope) (window : LimitWindow) : Prop :=
  let groups := scopeGroups st.rows project (window.since now) column
  (∀ g ∈ groups, Returned groups q.rowLimit g → ∀ r ∈ st.activeRules project now,
    ∀ s, r.scope = some s →
      scopeBindsRow s (q.dimension.getD "api_key") g.1.asText = true →
        (∀ r' ∈ st.activeRules project now, RuleReads st.rows project now r') ∧
          Balanced st.rows project (window.since now) (r.window.since now) column s g.1 r.metric) ∧
    (groups.length ≤ q.rowLimit →
      0 < chargeOf (st.rows.filter (inWindow project (window.since now))) →
        (groups.map fun g => chargeOf g.2).sum =
          chargeOf (st.rows.filter (inWindow project (window.since now))))

theorem exists_usageOfKey_iff (st : LimitsState) (project : String) (now : Time) (r : LimitRule) :
    (∃ u, st.usageOfKey project now r.usageKey = .ok u) ↔ RuleReads st.rows project now r := by
  unfold LimitsState.usageOfKey RuleReads LimitRule.usageKey
  cases r.scope with
  | none =>
    constructor
    · rintro ⟨u, hu⟩
      exact ((usageCols_eq_ok_iff _ u).1 hu).1
    · intro h
      exact ⟨_, (usageCols_eq_ok_iff _ _).2 ⟨h, rfl⟩⟩
  | some s =>
    constructor
    · rintro ⟨u, hu⟩
      exact ((usageSinceScoped_eq_ok_iff _ _ _ _ u).1 hu).1
    · intro h
      exact ⟨_, (usageSinceScoped_eq_ok_iff _ _ _ _ _).2 ⟨h, rfl⟩⟩

/-- The rows under a value. -/
theorem group_eq {rows : List EventRow} {project : String} {since : Time} {column : LimitScope}
    {g : SqlValue × List EventRow} (hg : g ∈ scopeGroups rows project since column) :
    g.2 = rows.filter fun r => inWindow project since r && scopeExpr column r == g.1 := by
  rw [Group.mem_groupsBy hg, List.filter_filter]
  exact List.filter_congr fun r _ => Bool.and_comm _ _

section Entries

open LimitsUsage

variable {st : LimitsState} {project : String} {now : Time} {since : Time} {column : LimitScope}

/-- The values of a breakdown that can be read are told apart by their rank. -/
theorem nodup_rowRank (h : ∀ g ∈ scopeGroups st.rows project since column, g.1.IsTextual) :
    (((scopeGroups st.rows project since column).map scopeRow).map rowRank).Nodup := by
  have hvalues := nodup_scopeRows (Group.nodup_keys (scopeExpr column) _) h
  have hvalue : ∀ r : ScopeUsage, (ofLex (ofLex (rowRank r)).2).2 = r.value := fun _ => rfl
  refine List.Nodup.of_map (fun k => (ofLex (ofLex k).2).2) ?_
  rw [List.map_map]
  exact hvalues

/-- **The entries of an answer** are those of the returned values. -/
theorem mem_returned_iff (h : ∀ g ∈ scopeGroups st.rows project since column, g.1.IsTextual)
    {rows : List ScopeUsage}
    (hrows : rows.Perm ((scopeGroups st.rows project since column).map scopeRow)) (limit : ℕ)
    (row : ScopeUsage) :
    row ∈ (rows.mergeSort fun a b => decide (rowRank a ≤ rowRank b)).take limit ↔
      ∃ g ∈ scopeGroups st.rows project since column,
        Returned (scopeGroups st.rows project since column) limit g ∧ row = scopeRow g := by
  have hnodup := ((hrows.map rowRank).nodup_iff).2 (nodup_rowRank h)
  have hcount : ∀ g,
      (rows.filter fun r => decide (rowRank r < rowRank (scopeRow g))).length < limit ↔
      Returned (scopeGroups st.rows project since column) limit g := by
    intro g
    rw [(hrows.filter _).length_eq, List.filter_map, List.length_map]
    rfl
  constructor
  · intro hmem
    have hin : row ∈ rows := List.mem_mergeSort.1 (List.mem_of_mem_take hmem)
    rcases List.mem_map.1 (hrows.mem_iff.1 hin) with ⟨g, hg, rfl⟩
    exact ⟨g, hg, (hcount g).1 ((Extremum.mem_take_mergeSort_iff hnodup hin limit).1 hmem), rfl⟩
  · rintro ⟨g, hg, hreturned, rfl⟩
    have hin : scopeRow g ∈ rows := hrows.mem_iff.2 (List.mem_map_of_mem hg)
    exact (Extremum.mem_take_mergeSort_iff hnodup hin limit).2 ((hcount g).2 hreturned)

/-- The statuses beside a value. -/
theorem mem_boundRules_iff {dimension : String} {row : ScopeUsage} {s : LimitStatus} :
    s ∈ boundRules st project dimension now row ↔
      ∃ r ∈ st.activeRules project now,
        (∃ scope, r.scope = some scope ∧ scopeBindsRow scope dimension row.value = true) ∧
          s = st.ruleStatus project now row.usage r := by
  unfold boundRules LimitsState.activeRules
  rw [List.mem_map]
  constructor
  · rintro ⟨r, hr, rfl⟩
    rcases List.mem_filter.1 hr with ⟨hactive, hbinds⟩
    exact ⟨r, hactive, (Option.any_eq_true _ _).1 hbinds, rfl⟩
  · rintro ⟨r, hactive, hbinds, rfl⟩
    exact ⟨r, List.mem_filter.2 ⟨hactive, (Option.any_eq_true _ _).2 hbinds⟩, rfl⟩

/-- Shares of a positive whole make up the whole exactly if the parts do. -/
theorem sum_shares_iff {α : Type} (f : α → ℚ) (l : List α) {total : ℚ} (h : 0 < total) :
    (l.map fun a => f a / total * 100).sum = 100 ↔ (l.map f).sum = total := by
  have hsum : (l.map fun a => f a / total * 100).sum = (l.map f).sum / total * 100 := by
    induction l with
    | nil => simp
    | cons a l ih =>
      rw [List.map_cons, List.sum_cons, ih, List.map_cons, List.sum_cons]
      ring
  rw [hsum]
  constructor
  · intro heq
    field_simp at heq
    linarith
  · intro heq
    rw [heq, div_self h.ne', one_mul]

/-- When the shares make up the whole. -/
theorem shares_iff (q : UsageParams) (window : LimitWindow) (keys : List ApiKey)
    {rows : List ScopeUsage}
    (hrows : rows.Perm ((scopeGroups st.rows project since column).map scopeRow)) :
    let resp := compose st project (q.dimension.getD "api_key") now window
      ((st.rows.filter (inWindow project since)).map EventRow.contribution).sum rows keys q.rowLimit
    (resp.truncated = false → 0 < resp.total.costForLimits →
        (resp.entries.map ScopeEntry.costSharePct).sum = 100) ↔
      ((scopeGroups st.rows project since column).length ≤ q.rowLimit →
        0 < chargeOf (st.rows.filter (inWindow project since)) →
          ((scopeGroups st.rows project since column).map fun g => chargeOf g.2).sum =
            chargeOf (st.rows.filter (inWindow project since))) := by
  have htotal := costForLimits_sum (st.rows.filter (inWindow project since))
  have hlength : rows.length = (scopeGroups st.rows project since column).length := by
    rw [hrows.length_eq, List.length_map]
  simp only [compose, decide_eq_false_iff_not, not_lt]
  rw [hlength, htotal]
  refine imp_congr_right fun hall => imp_congr_right fun hpos => ?_
  -- every value is returned
  have hperm : ((rows.mergeSort fun a b => decide (rowRank a ≤ rowRank b)).take q.rowLimit).Perm
      ((scopeGroups st.rows project since column).map scopeRow) := by
    rw [List.take_of_length_le (by rw [List.length_mergeSort, hlength]; exact hall)]
    exact (List.mergeSort_perm _ _).trans hrows
  have hshare : ∀ g : SqlValue × List EventRow,
      (entryOf st project (q.dimension.getD "api_key") now keys
          ((st.rows.filter (inWindow project since)).map EventRow.contribution).sum
          (scopeRow g)).costSharePct =
        chargeOf g.2 / chargeOf (st.rows.filter (inWindow project since)) * 100 := by
    intro g
    have hvalue : (scopeRow g).usage.costForLimits = chargeOf g.2 := costForLimits_sum g.2
    unfold entryOf
    simp only
    rw [htotal, if_pos hpos, hvalue]
  rw [List.map_map, (hperm.map _).sum_eq, List.map_map]
  simp only [Function.comp_def, hshare]
  exact sum_shares_iff _ _ hpos

/-- The answer composed from a breakdown that can be read agrees exactly under the condition. -/
theorem compose_agrees_iff (q : UsageParams) (window : LimitWindow) (keys : List ApiKey)
    (hreads : BreakdownReads st.rows project (window.since now) column) {rows : List ScopeUsage}
    (hrows : rows.Perm ((scopeGroups st.rows project (window.since now) column).map scopeRow)) :
    SurfacesAgree (st.activeRules project now) (st.evaluateProjectLimits project now)
        (compose st project (q.dimension.getD "api_key") now window
          ((st.rows.filter (inWindow project (window.since now))).map EventRow.contribution).sum
          rows keys q.rowLimit) ↔
      SurfacesCondition st project now q column window := by
  have hentries := mem_returned_iff (fun g hg => (hreads.1 g hg).1) hrows q.rowLimit
  -- one group and one rule: when the status beside the group is the one the gate reports
  have hsame : ∀ g ∈ scopeGroups st.rows project (window.since now) column,
      ∀ r ∈ st.activeRules project now, ∀ s, r.scope = some s →
        ((∃ ss, st.evaluateProjectLimits project now = .ok ss ∧ ∃ s' ∈ ss, s'.ruleId = r.id ∧
            (st.ruleStatus project now (scopeRow g).usage r).figures = s'.figures) ↔
          (∀ r' ∈ st.activeRules project now, RuleReads st.rows project now r') ∧
            Balanced st.rows project (window.since now) (r.window.since now) column s g.1
              r.metric) := by
    intro g hg r hr s hs
    rw [reported_iff hr]
    simp only [exists_usageOfKey_iff]
    refine and_congr_right ?_
    intro hall
    have hfits := (hreads.1 g hg).2
    have hkey : ∀ u, st.usageOfKey project now r.usageKey = .ok u ↔
        ScopeReads st.rows project (r.window.since now) s ∧
          u = { ((scopeRows st.rows project (r.window.since now) s).map
              EventRow.contribution).sum with
            tokens := scopeTokens st.rows project (r.window.since now) s } := by
      intro u
      rw [← usageSinceScoped_eq_ok_iff]
      unfold LimitsState.usageOfKey LimitRule.usageKey
      rw [hs]
    -- the gate reads every active rule, so it reads this one
    have hown : ScopeReads st.rows project (r.window.since now) s := by
      have h := hall r hr
      unfold RuleReads at h
      rw [hs] at h
      exact h
    rw [group_eq hg] at hfits
    rw [← balanced_iff hfits r.metric, ← group_eq hg]
    constructor
    · intro h
      exact h _ ((hkey _).2 ⟨hown, rfl⟩)
    · intro h u hu
      rw [((hkey u).1 hu).2]
      exact h
  constructor
  · intro h
    refine ⟨?_, ?_⟩
    · intro g hg hreturned r hr s hs hbinds
      have hentry := (hentries (scopeRow g)).2 ⟨g, hg, hreturned, rfl⟩
      have hstatus : st.ruleStatus project now (scopeRow g).usage r ∈
          boundRules st project (q.dimension.getD "api_key") now (scopeRow g) :=
        mem_boundRules_iff.2 ⟨r, hr, ⟨s, hs, hbinds⟩, rfl⟩
      exact (hsame g hg r hr s hs).1
        (h.same _ (List.mem_map_of_mem hentry) _ hstatus)
    · exact (shares_iff q window keys hrows).1 h.shares
  · rintro ⟨hbalanced, hshares⟩
    refine ⟨?_, ?_, ?_⟩
    · intro e he s hs
      rcases List.mem_map.1 he with ⟨row, hrow, rfl⟩
      rcases (hentries row).1 hrow with ⟨g, hg, hreturned, rfl⟩
      rcases mem_boundRules_iff.1 hs with ⟨r, hr, ⟨scope, hscope, hbinds⟩, rfl⟩
      exact (hsame g hg r hr scope hscope).2 (hbalanced g hg hreturned r hr scope hscope hbinds)
    · rintro r hr e he ⟨s, hs, hcontains⟩
      rcases List.mem_map.1 he with ⟨row, hrow, rfl⟩
      exact ⟨_, mem_boundRules_iff.2 ⟨r, hr, ⟨s, hs, (scopeBindsRow_iff _ _ _).2 hcontains⟩, rfl⟩,
        rfl⟩
    · exact (shares_iff q window keys hrows).2 hshares

end Entries

/-- A call of one dollar to a model, at a time. -/
def dollarCall (rowid : ℕ) (ts : Time) : EventRow :=
  .ofEvent rowid
    { id := "e" ++ toString rowid, projectId := "p", ts := ts, receivedAt := ts
      provider := .new "openai", model := "gpt-4o", usage := { input := 10, output := 5 }
      costUsd := some 1 }

def dayTwo : Time := 2 * 86400 * Time.second

/-- A monthly cap of ten dollars on the model, and a dollar spent on it on each of two days. -/
def monthlyCap : LimitsState where
  rows := [dollarCall 1 0, dollarCall 2 dayTwo]
  revenue := []
  rules :=
    { rules := [{ id := "cap", projectId := "p", metric := .costUsd, window := .month
                  threshold := .fixed 10, action := .block, scope := some (.model "gpt-4o") }]
      ids_nodup := List.nodup_singleton _ }
  keys := []

end LightTrack
