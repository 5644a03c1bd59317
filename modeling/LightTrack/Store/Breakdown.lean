import LightTrack.Store.ScopeUsage

/-! # Who is spending

The breakdown of a project's rolling usage by the values of one dimension, against the
usage it breaks down.

* `Explains` : the breakdown succeeds, names each value once, adds up to the usage, and
  gives a value what a query scoped to it reports,
* `usageByScope_eq_ok_iff` : when the breakdown can be read, and as what,
* `explains_iff` : when it explains the usage.
-/

namespace LightTrack

/-- The same dimension at another value. -/
def LimitScope.withValue : LimitScope → String → LimitScope
  | provider _, v => provider v
  | model _, v => model v
  | name _, v => name v
  | apiKey _, v => apiKey v
  | customer _, v => customer v

@[simp] theorem LimitScope.value_withValue (s : LimitScope) (v : String) :
    (s.withValue v).value = v := by
  cases s <;> rfl

@[simp] theorem LimitScope.foldsCanonicalFamily_withValue (s : LimitScope) (v : String) :
    (s.withValue v).foldsCanonicalFamily = s.foldsCanonicalFamily := by
  cases s <;> rfl

/-- What a breakdown by the dimension of `s` owes to the usage it breaks down: its values are
pairwise different, its rows add up to the usage, and unless the dimension folds families, the row
of a value is what the query scoped to it reports. -/
def Explains (s : LimitScope) (byScope : Except StoreError (List ScopeUsage))
    (total : Except StoreError Usage) (atValue : LimitScope → Except StoreError Usage) : Prop :=
  ∃ gs, byScope = .ok gs ∧ (gs.map ScopeUsage.value).Nodup ∧
    total = .ok (gs.map ScopeUsage.usage).sum ∧
      (s.foldsCanonicalFamily = false → ∀ g ∈ gs, ∀ v, g.value = some v →
        atValue (s.withValue v) = .ok g.usage)

/-- The order of the rows does not matter. -/
theorem explains_iff_of_perm {s : LimitScope} {byScope : Except StoreError (List ScopeUsage)}
    {total : Except StoreError Usage} {atValue : LimitScope → Except StoreError Usage}
    {P : Prop} {gs gs' : List ScopeUsage} (hperm : gs'.Perm gs)
    (hread : ∀ out, byScope = .ok out ↔ P ∧ out = gs') :
    Explains s byScope total atValue ↔ P ∧ (gs.map ScopeUsage.value).Nodup ∧
      total = .ok (gs.map ScopeUsage.usage).sum ∧
        (s.foldsCanonicalFamily = false → ∀ g ∈ gs, ∀ v, g.value = some v →
          atValue (s.withValue v) = .ok g.usage) := by
  have hvalues := (hperm.map ScopeUsage.value).nodup_iff
  have hsum := (hperm.map ScopeUsage.usage).sum_eq
  constructor
  · rintro ⟨out, hout, hnodup, htotal, hscoped⟩
    rcases (hread out).1 hout with ⟨hP, rfl⟩
    exact ⟨hP, hvalues.1 hnodup, hsum ▸ htotal, fun hs g hg =>
      hscoped hs g (hperm.mem_iff.2 hg)⟩
  · rintro ⟨hP, hnodup, htotal, hscoped⟩
    exact ⟨gs', (hread gs').2 ⟨hP, rfl⟩, hvalues.2 hnodup, hsum.symm ▸ htotal, fun hs g hg =>
      hscoped hs g (hperm.mem_iff.1 hg)⟩

/-! ## SQLite -/

/-- The row of a group. -/
def scopeRow (g : SqlValue × List EventRow) : ScopeUsage where
  value := g.1.asText
  usage := (g.2.map EventRow.contribution).sum

/-- The groups of the breakdown. -/
def scopeGroups (rows : List EventRow) (project : String) (since : Time) (s : LimitScope) :
    List (SqlValue × List EventRow) :=
  Group.groupsBy (scopeExpr s) (rows.filter (inWindow project since))

theorem scopeGroup_eq_ok_iff (window : List EventRow) (s : LimitScope) (k : SqlValue)
    (row : ScopeUsage) :
    scopeGroup window s k = .ok row ↔
      (k.IsTextual ∧ GroupFits (window.filter fun r => scopeExpr s r == k)) ∧
        row = scopeRow (k, window.filter fun r => scopeExpr s r == k) := by
  have hread := usageCols_eq_ok_iff (window.filter fun r => scopeExpr s r == k)
  unfold scopeGroup scopeRow
  cases hu : usageCols (window.filter fun r => scopeExpr s r == k) with
  | error e =>
    have hno : ¬ GroupFits (window.filter fun r => scopeExpr s r == k) := by
      intro hfit
      rw [(hread _).2 ⟨hfit, rfl⟩] at hu
      cases hu
    simp [hno]
  | ok u =>
    rcases (hread u).1 hu with ⟨hfit, rfl⟩
    by_cases htext : k.IsTextual
    · simp [SqlValue.getOptString_of_textual htext, htext, hfit, eq_comm]
    · simp [SqlValue.getOptString_error htext, htext]

/-- **When the breakdown can be read**: every value of the dimension is a text or NULL, and the
tokens of every group can be added up. -/
theorem usageByScope_eq_ok_iff (rows : List EventRow) (project : String) (since : Time)
    (s : LimitScope) (gs : List ScopeUsage) :
    usageByScope rows project since s = .ok gs ↔
      (∀ g ∈ scopeGroups rows project since s, g.1.IsTextual ∧ GroupFits g.2) ∧
        gs = ((scopeGroups rows project since s).map scopeRow).mergeSort
          fun a b => decide (b.usage.costUsd ≤ a.usage.costUsd) := by
  have hread := fun out => Traverse.mapM_eq_map_iff
    (scopeGroup_eq_ok_iff (rows.filter (inWindow project since)) s)
    (l := ((rows.filter (inWindow project since)).map (scopeExpr s)).dedup) (m := out)
  have hgroups : (∀ k ∈ ((rows.filter (inWindow project since)).map (scopeExpr s)).dedup,
      k.IsTextual ∧
        GroupFits ((rows.filter (inWindow project since)).filter fun r => scopeExpr s r == k)) ↔
      ∀ g ∈ scopeGroups rows project since s, g.1.IsTextual ∧ GroupFits g.2 := by
    unfold scopeGroups Group.groupsBy
    rw [List.forall_mem_map]
  have hmap : ((rows.filter (inWindow project since)).map (scopeExpr s)).dedup.map
      (fun k => scopeRow (k, (rows.filter (inWindow project since)).filter fun r =>
        scopeExpr s r == k)) = (scopeGroups rows project since s).map scopeRow := by
    unfold scopeGroups Group.groupsBy
    rw [List.map_map]
    rfl
  unfold usageByScope
  simp only
  rw [Traverse.map_eq_ok_iff, ← hmap, ← hgroups]
  constructor
  · rintro ⟨out, hout, rfl⟩
    rcases (hread out).1 hout with ⟨hall, rfl⟩
    exact ⟨hall, rfl⟩
  · rintro ⟨hall, rfl⟩
    exact ⟨_, (hread _).2 ⟨hall, rfl⟩, rfl⟩

/-- The condition under which the SQLite breakdown explains the usage. -/
structure SqliteExplained (rows : List EventRow) (project : String) (since : Time)
    (s : LimitScope) : Prop where
  textual : ∀ r ∈ rows, inWindow project since r = true → (scopeExpr s r).IsTextual
  groups : ∀ g ∈ scopeGroups rows project since s, GroupFits g.2
  total : GroupFits (rows.filter (inWindow project since))

/-- Different texts or NULLs are different values. -/
theorem nodup_scopeRows {gs : List (SqlValue × List EventRow)} (hkeys : (gs.map Prod.fst).Nodup)
    (htext : ∀ g ∈ gs, g.1.IsTextual) : ((gs.map scopeRow).map ScopeUsage.value).Nodup := by
  have hvalues : (gs.map scopeRow).map ScopeUsage.value = (gs.map Prod.fst).map SqlValue.asText := by
    rw [List.map_map, List.map_map]
    rfl
  rw [hvalues]
  refine List.Nodup.map_on ?_ hkeys
  intro a ha b hb heq
  rcases List.mem_map.1 ha with ⟨g, hg, rfl⟩
  rcases List.mem_map.1 hb with ⟨g', hg', rfl⟩
  rcases htext g hg with h | ⟨v, h⟩ <;> rcases htext g' hg' with h' | ⟨v', h'⟩ <;>
    rw [h, h'] at heq ⊢ <;> simp_all [SqlValue.asText]

/-- **When the SQLite breakdown explains the usage**: every value in the window is a text or NULL,
and the tokens can be added up, in each group and in all. -/
theorem explains_iff (rows : List EventRow) (project : String) (since : Time) (s : LimitScope) :
    Explains s (usageByScope rows project since s) (usageSince rows project since)
        (usageSinceScoped rows project since) ↔
      SqliteExplained rows project since s := by
  have hkeys : ((scopeGroups rows project since s).map Prod.fst).Nodup := Group.nodup_keys _ _
  have htext : (∀ g ∈ scopeGroups rows project since s, g.1.IsTextual) ↔
      ∀ r ∈ rows, inWindow project since r = true → (scopeExpr s r).IsTextual := by
    refine Group.forall_key_iff.trans ?_
    simp only [List.mem_filter, and_imp]
  have hsum : (((scopeGroups rows project since s).map scopeRow).map ScopeUsage.usage).sum =
      ((rows.filter (inWindow project since)).map EventRow.contribution).sum := by
    rw [List.map_map]
    exact Group.sum_groupsBy (scopeExpr s) EventRow.contribution _
  rw [explains_iff_of_perm (List.mergeSort_perm _ _)
    (usageByScope_eq_ok_iff rows project since s), hsum]
  constructor
  · rintro ⟨hread, -, htotal, -⟩
    exact ⟨htext.1 fun g hg => (hread g hg).1, fun g hg => (hread g hg).2,
      ((usageCols_eq_ok_iff _ _).1 htotal).1⟩
  · intro h
    have hall := htext.2 h.textual
    refine ⟨fun g hg => ⟨hall g hg, h.groups g hg⟩, nodup_scopeRows hkeys hall,
      usageCols_of_fits h.total, ?_⟩
    intro hs row hrow v hv
    rcases List.mem_map.1 hrow with ⟨g, hg, rfl⟩
    -- the scoped query selects the group
    have hkey : g.1 = .text v := by
      rcases hall g hg with hnull | ⟨v', hv'⟩
      · rw [scopeRow, hnull] at hv
        cases hv
      · rw [scopeRow, hv'] at hv
        rw [hv', Option.some.inj hv]
    have hsame : (rows.filter fun r => inWindow project since r &&
        scopeExpr (s.withValue v) r == .text (s.withValue v).value) = g.2 := by
      rw [Group.mem_groupsBy hg, List.filter_filter, hkey, LimitScope.value_withValue]
      refine List.filter_congr ?_
      intro r _
      rw [Bool.and_comm]
      cases s <;> rfl
    unfold usageSinceScoped usageSinceExact
    rw [LimitScope.foldsCanonicalFamily_withValue, hs, if_neg Bool.false_ne_true, hsame]
    exact usageCols_of_fits (h.groups g hg)

end LightTrack
