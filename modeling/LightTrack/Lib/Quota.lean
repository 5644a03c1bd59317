import LightTrack.Lib.Group
import Mathlib.Algebra.Ring.Nat
import Mathlib.Data.List.Perm.Subperm
import Mathlib.Algebra.BigOperators.Group.Multiset.Basic

/-! # Quotas

`within before key q l` numbers the elements of every group of `l` in the order `before` and
keeps those numbered up to `q`.

* `isTop_within` : of every group it keeps the first `q` elements, or all of a smaller group,
* `subperm_within` : it repeats nothing.
-/

namespace Quota

variable {α κ : Type*} [DecidableEq κ] {before : α → α → Bool} {key : α → κ}

/-- `chosen` are `q` elements of `l`, or all of fewer, and every other one stands behind them. -/
structure IsTop (ahead : α → α → Prop) (q : ℕ) (l chosen : List α) : Prop where
  length : chosen.length = min l.length q
  split : ∃ rest, (chosen ++ rest).Perm l ∧ ∀ a ∈ chosen, ∀ b ∈ rest, ahead a b

theorem IsTop.imp {ahead ahead' : α → α → Prop} {q : ℕ} {l chosen : List α}
    (h : IsTop ahead q l chosen) (himp : ∀ a b, ahead a b → ahead' a b) :
    IsTop ahead' q l chosen := by
  rcases h.split with ⟨rest, hperm, hahead⟩
  exact ⟨h.length, rest, hperm, fun a ha b hb => himp a b (hahead a ha b hb)⟩

/-- A rearrangement of the chosen elements is as good. -/
theorem IsTop.perm {ahead : α → α → Prop} {q : ℕ} {l l' chosen chosen' : List α}
    (h : IsTop ahead q l chosen) (hl : l.Perm l') (hchosen : chosen.Perm chosen') :
    IsTop ahead q l' chosen' := by
  rcases h.split with ⟨rest, hperm, hahead⟩
  refine ⟨?_, rest, ?_, ?_⟩
  · rw [← hchosen.length_eq, h.length, hl.length_eq]
  · exact ((hchosen.append_right rest).symm.trans hperm).trans hl
  · intro a ha
    exact hahead a (hchosen.mem_iff.2 ha)

/-- What a sorted list starts with is its top. -/
theorem isTop_take {ahead : α → α → Prop} {l sorted : List α} (hperm : sorted.Perm l)
    (hsorted : sorted.Pairwise ahead) (q : ℕ) : IsTop ahead q l (sorted.take q) := by
  refine ⟨?_, sorted.drop q, ?_, ?_⟩
  · rw [List.length_take, hperm.length_eq, min_comm]
  · rw [List.take_append_drop]
    exact hperm
  · have hsplit : (sorted.take q ++ sorted.drop q).Pairwise ahead := by
      rw [List.take_append_drop]
      exact hsorted
    exact (List.pairwise_append.1 hsplit).2.2

/-! ## Numbering -/

/-- The elements, each numbered from one inside its group. -/
def number (before : α → α → Bool) (key : α → κ) (l : List α) : List (α × ℕ) :=
  (Group.groupsBy key l).flatMap fun g => (g.2.mergeSort before).zipIdx 1

/-- The elements numbered up to `q`. -/
def within (before : α → α → Bool) (key : α → κ) (q : ℕ) (l : List α) : List α :=
  ((number before key l).filter fun a => decide (a.2 ≤ q)).map Prod.fst

theorem filter_zipIdx (l : List α) (n q : ℕ) :
    ((l.zipIdx (n + 1)).filter fun a => decide (a.2 ≤ n + q)).map Prod.fst = l.take q := by
  induction l generalizing n q with
  | nil => rw [List.zipIdx_nil, List.filter_nil, List.map_nil, List.take_nil]
  | cons a l ih =>
    rw [List.zipIdx_cons]
    cases q with
    | zero =>
      have hnone : ((a, n + 1) :: l.zipIdx (n + 1 + 1)).filter
          (fun a => decide (a.2 ≤ n + 0)) = [] := by
        rw [List.filter_eq_nil_iff]
        intro b hb
        rw [decide_eq_true_iff]
        rcases List.mem_cons.1 hb with rfl | hb
        · exact Nat.not_succ_le_self n
        · have := (List.mem_zipIdx hb).1
          omega
      rw [hnone, List.map_nil, List.take_zero]
    | succ q =>
      have hshift : n + (q + 1) = n + 1 + q := by omega
      rw [List.filter_cons_of_pos (by simp), List.map_cons, List.take_succ_cons, hshift, ih]

theorem within_eq (q : ℕ) (l : List α) : within before key q l =
    (Group.groupsBy key l).flatMap fun g => (g.2.mergeSort before).take q := by
  unfold within number
  rw [List.filter_flatMap, List.map_flatMap]
  congr 1
  funext g
  have hzero := filter_zipIdx (g.2.mergeSort before) 0 q
  rwa [zero_add, zero_add] at hzero

/-- Of lists joined over distinct keys, where all but one are empty. -/
theorem flatMap_single {β : Type*} {ks : List κ} (hks : ks.Nodup) {k : κ} {f : κ → List β}
    (hothers : ∀ k', k' ≠ k → f k' = []) (habsent : k ∉ ks → f k = []) :
    ks.flatMap f = f k := by
  induction ks with
  | nil => exact (habsent List.not_mem_nil).symm
  | cons k' ks ih =>
    rcases List.nodup_cons.1 hks with ⟨hfresh, hks⟩
    rw [List.flatMap_cons]
    by_cases hk : k' = k
    · -- the key does not occur again
      subst hk
      have hrest : ks.flatMap f = [] := by
        rw [List.flatMap_eq_nil_iff]
        intro k'' hk''
        exact hothers k'' fun heq => hfresh (heq ▸ hk'')
      rw [hrest, List.append_nil]
    · rw [hothers k' hk, List.nil_append]
      refine ih hks fun hk' => habsent fun hmem => ?_
      rcases List.mem_cons.1 hmem with heq | hmem
      · exact hk heq.symm
      · exact hk' hmem

/-- The elements under one key. -/
def inGroup (key : α → κ) (k : κ) (l : List α) : List α := l.filter fun a => key a == k

/-- What is kept of one group is what its sort starts with. -/
theorem inGroup_within (q : ℕ) (l : List α) (k : κ) :
    inGroup key k (within before key q l) = ((inGroup key k l).mergeSort before).take q := by
  unfold inGroup
  have hkey : ∀ k', ∀ a ∈ ((l.filter fun a => key a == k').mergeSort before).take q,
      key a = k' := by
    intro k' a ha
    have hmem := (List.mem_filter.1 (List.mem_mergeSort.1 (List.mem_of_mem_take ha))).2
    exact beq_iff_eq.1 hmem
  rw [within_eq, List.filter_flatMap, Group.groupsBy, List.flatMap_map]
  rw [flatMap_single (List.nodup_dedup (l.map key)) (k := k)]
  · rw [List.filter_eq_self]
    intro a ha
    exact beq_iff_eq.2 (hkey k a ha)
  · intro k' hk'
    rw [List.filter_eq_nil_iff]
    intro a ha heq
    exact hk' ((hkey k' a ha).symm.trans (beq_iff_eq.1 heq))
  · intro hk
    have hnone : l.filter (fun a => key a == k) = [] := by
      rw [List.filter_eq_nil_iff]
      intro a ha heq
      rw [← beq_iff_eq.1 heq, List.mem_dedup] at hk
      exact hk (List.mem_map_of_mem ha)
    simp only [hnone, List.mergeSort_nil, List.take_nil, List.filter_nil]

/-- **Every group keeps its top.** -/
theorem isTop_within (htrans : ∀ a b c, before a b → before b c → before a c)
    (htotal : ∀ a b, before a b || before b a) (q : ℕ) (l : List α) (k : κ) :
    IsTop (fun a b => before a b) q (inGroup key k l) (inGroup key k (within before key q l)) := by
  rw [inGroup_within]
  exact isTop_take (List.mergeSort_perm _ _) (List.pairwise_mergeSort htrans htotal _) q

/-- The groups make up the list. -/
theorem flatMap_groupsBy_perm (key : α → κ) (l : List α) :
    ((Group.groupsBy key l).flatMap Prod.snd).Perm l := by
  have hsingle : ∀ m : List α, (m.map fun a => ({a} : Multiset α)).sum = m := by
    intro m
    have := Multiset.sum_map_singleton (m : Multiset α)
    rwa [Multiset.map_coe, Multiset.sum_coe] at this
  have hsum := Group.sum_groupsBy key (fun a => ({a} : Multiset α)) l
  rw [hsingle l] at hsum
  rw [← Multiset.coe_eq_coe, ← hsum]
  generalize Group.groupsBy key l = gs
  induction gs with
  | nil => rfl
  | cons g gs ih =>
    rw [List.flatMap_cons, List.map_cons, List.sum_cons, ← Multiset.coe_add, ih, hsingle]

/-- Nothing is kept twice. -/
theorem subperm_within (q : ℕ) (l : List α) : (within before key q l).Subperm l := by
  have hkept : ((Group.groupsBy key l).flatMap fun g => (g.2.mergeSort before).take q).Sublist
      ((Group.groupsBy key l).flatMap fun g => g.2.mergeSort before) :=
    List.Sublist.flatMap_right _ fun g _ => List.take_sublist q _
  have hsorted : ((Group.groupsBy key l).flatMap fun g => g.2.mergeSort before).Perm
      ((Group.groupsBy key l).flatMap Prod.snd) :=
    List.Perm.flatMap_left _ fun g _ => List.mergeSort_perm g.2 before
  rw [within_eq]
  exact hkept.subperm.trans (hsorted.trans (flatMap_groupsBy_perm key l)).subperm

/-- How much is kept: of every group the quota, or all of a smaller one. -/
def kept (key : α → κ) (q : ℕ) (l : List α) : ℕ :=
  ((Group.groupsBy key l).map fun g => min g.2.length q).sum

theorem kept_le (q : ℕ) (l : List α) : kept key q l ≤ q * (l.map key).dedup.length := by
  have hgroups : (Group.groupsBy key l).length = (l.map key).dedup.length := by
    rw [Group.groupsBy, List.length_map]
  unfold kept
  rw [← hgroups]
  generalize Group.groupsBy key l = gs
  induction gs with
  | nil => exact Nat.zero_le _
  | cons g gs ih =>
    have hmin := Nat.min_le_right g.2.length q
    rw [List.map_cons, List.sum_cons, List.length_cons, Nat.mul_succ]
    omega

/-- Counted group by group. -/
theorem length_eq_kept {q : ℕ} {l m : List α} (hsub : ∀ a ∈ m, key a ∈ l.map key)
    (hm : ∀ k ∈ l.map key, (inGroup key k m).length = min (inGroup key k l).length q) :
    m.length = kept key q l := by
  have hlength : ∀ s : List α, s.length = (s.map fun _ => 1).sum := by
    intro s
    induction s with
    | nil => rfl
    | cons a s ih => rw [List.length_cons, List.map_cons, List.sum_cons, ih, Nat.add_comm]
  rw [hlength m, ← Group.sum_fibers (List.nodup_dedup (l.map key)) key (fun _ => 1) m
    fun a ha => List.mem_dedup.2 (hsub a ha), kept, Group.map_groupsBy]
  congr 1
  refine List.map_congr_left ?_
  intro k hk
  rw [← hlength]
  exact hm k (List.mem_dedup.1 hk)

end Quota
