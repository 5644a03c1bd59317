import LightTrack.Lib.OrdMap
import Mathlib.Data.Finset.Sort
import Mathlib.Data.Rat.Defs

/-! # Pairing two score lists by case

`runner/src/stats/cases.rs`: a score knows the case it was measured on, and
`pairedDeltasByCase` differences two lists over the cases both of them scored.
-/

namespace LightTrack.Stats

/-- One case's score, carrying the case it was measured on. -/
structure CaseScore where
  case : ℕ
  score : ℚ
  deriving DecidableEq

/-- Why two lists could not be paired. -/
inductive Unpairable where
  | empty
  | disjoint
  | duplicateCaseIds
  | tooFewShared (n : ℕ)
  deriving DecidableEq

def Unpairable.reason : Unpairable → String
  | empty => "one of the two produced no scored cases at all"
  | disjoint => "no case was judged in both, so the pair cannot be tested — untested, neither " ++
      "sufficient nor insufficient"
  | duplicateCaseIds => "a case id appears twice in one of the two reports, so which scores pair " ++
      "is unknowable — refused rather than guessed"
  | tooFewShared n => "only " ++ toString n ++ " case was judged in both — a paired test needs at " ++
      "least 2 to have any spread to test"

/-- Per-case differences over the cases both sides scored. -/
structure PairedByCase where
  deltas : List ℚ
  retained : ℕ
  dropped : ℕ
  deriving DecidableEq

namespace PairedByCase

def isSubset (p : PairedByCase) : Bool := decide (0 < p.dropped)

/-- The pairing of the two sides in the other order. -/
def swap (p : PairedByCase) : PairedByCase := { p with deltas := p.deltas.map fun d => -d }

end PairedByCase

/-- The scores under their cases, unless a case repeats. -/
def indexFrom (m : OrdMap ℕ ℚ) : List CaseScore → Option (OrdMap ℕ ℚ)
  | [] => some m
  | c :: xs => if (m.get c.case).isSome then none else indexFrom (m.insert c.case c.score) xs

def index (xs : List CaseScore) : Option (OrdMap ℕ ℚ) := indexFrom .empty xs

/-- `run[c] − baseline[c]` over the cases both sides judged, in case order. -/
def pairedDeltasByCase (run baseline : List CaseScore) : Except Unpairable PairedByCase :=
  if run.isEmpty || baseline.isEmpty then .error .empty
  else
    match index run, index baseline with
    | some r, some b =>
      let deltas := r.entries.filterMap fun e => (b.get e.1).map fun prev => e.2 - prev
      let retained := deltas.length
      if retained = 0 then .error .disjoint
      else if retained < 2 then .error (.tooFewShared retained)
      else .ok ⟨deltas, retained, (r.keys ++ b.keys).dedup.length - retained⟩
    | _, _ => .error .duplicateCaseIds

/-! ## The index -/

/-- An entry of the index. -/
def CaseScore.entry (c : CaseScore) : ℕ × ℚ := (c.case, c.score)

theorem indexFrom_eq_some_iff {xs : List CaseScore} {m m' : OrdMap ℕ ℚ} :
    indexFrom m xs = some m' ↔ (m.keys ++ xs.map CaseScore.case).Nodup ∧
      m'.entries.Perm (m.entries ++ xs.map CaseScore.entry) := by
  induction xs generalizing m with
  | nil =>
    rw [indexFrom, List.map_nil, List.map_nil, List.append_nil, List.append_nil, Option.some.injEq]
    constructor
    · rintro rfl
      exact ⟨m.nodup_keys, List.Perm.refl _⟩
    · intro h
      exact (OrdMap.eq_of_perm h.2).symm
  | cons c xs ih =>
    unfold indexFrom
    by_cases hc : c.case ∈ m.keys
    · rw [if_pos (OrdMap.get_isSome_iff.2 hc)]
      constructor
      · intro h
        exact nomatch h
      · intro h
        -- the case occurs on both sides
        have hdisjoint := (List.nodup_append.1 h.1).2.2
        exact absurd rfl (hdisjoint _ hc _ (List.mem_cons_self ..))
    · rw [if_neg (fun h => hc (OrdMap.get_isSome_iff.1 h)), ih]
      have hentries : (m.insert c.case c.score).entries.Perm (c.entry :: m.entries) :=
        OrdMap.perm_insertList c.score hc
      have hkeys : (m.insert c.case c.score).keys.Perm (c.case :: m.keys) :=
        hentries.map Prod.fst
      have hmoved : ((m.insert c.case c.score).keys ++ xs.map CaseScore.case).Perm
          (m.keys ++ (c :: xs).map CaseScore.case) :=
        (hkeys.append_right _).trans List.perm_middle.symm
      have hmoved' : ((m.insert c.case c.score).entries ++ xs.map CaseScore.entry).Perm
          (m.entries ++ (c :: xs).map CaseScore.entry) :=
        (hentries.append_right _).trans List.perm_middle.symm
      rw [hmoved.nodup_iff]
      exact and_congr_right fun _ => ⟨fun h => h.trans hmoved', fun h => h.trans hmoved'.symm⟩

/-- A list is indexed unless a case repeats, and the index holds its scores. -/
theorem index_eq_some_iff {xs : List CaseScore} {m : OrdMap ℕ ℚ} : index xs = some m ↔
    (xs.map CaseScore.case).Nodup ∧ m.entries.Perm (xs.map CaseScore.entry) :=
  indexFrom_eq_some_iff

theorem exists_indexFrom {xs : List CaseScore} {m : OrdMap ℕ ℚ}
    (h : (m.keys ++ xs.map CaseScore.case).Nodup) : ∃ m', indexFrom m xs = some m' := by
  induction xs generalizing m with
  | nil => exact ⟨m, rfl⟩
  | cons c xs ih =>
    have hc : c.case ∉ m.keys := by
      intro hmem
      exact absurd rfl ((List.nodup_append.1 h).2.2 _ hmem _ (List.mem_cons_self ..))
    have hkeys : (m.insert c.case c.score).keys.Perm (c.case :: m.keys) :=
      (OrdMap.perm_insertList c.score hc).map Prod.fst
    unfold indexFrom
    rw [if_neg (fun hsome => hc (OrdMap.get_isSome_iff.1 hsome))]
    exact ih (((hkeys.append_right _).trans List.perm_middle.symm).nodup_iff.2 h)

theorem index_isSome_iff {xs : List CaseScore} :
    (index xs).isSome = true ↔ (xs.map CaseScore.case).Nodup := by
  rw [Option.isSome_iff_exists]
  constructor
  · intro h
    rcases h with ⟨m, hm⟩
    exact (index_eq_some_iff.1 hm).1
  · intro h
    exact exists_indexFrom h

/-- The order of a list does not matter to its index. -/
theorem index_perm {xs xs' : List CaseScore} (h : xs.Perm xs') : index xs = index xs' := by
  refine Option.ext fun m => ?_
  rw [index_eq_some_iff, index_eq_some_iff, (h.map CaseScore.case).nodup_iff]
  have hentries := h.map CaseScore.entry
  exact and_congr_right fun _ => ⟨fun hm => hm.trans hentries, fun hm => hm.trans hentries.symm⟩

/-! ## The pairing -/

/-- The cases a list scored. -/
def caseSet (xs : List CaseScore) : Finset ℕ := (xs.map CaseScore.case).toFinset

/-- The cases both lists scored, in order. -/
def shared (run baseline : List CaseScore) : List ℕ := (caseSet run ∩ caseSet baseline).sort

/-- The score of a case. -/
def scoreAt (xs : List CaseScore) (c : ℕ) : ℚ :=
  ((xs.find? fun s => s.case == c).map CaseScore.score).getD 0

theorem shared_comm (run baseline : List CaseScore) : shared run baseline = shared baseline run := by
  unfold shared
  rw [Finset.inter_comm]

section Index

variable {xs : List CaseScore} {m : OrdMap ℕ ℚ} (h : index xs = some m)

include h

theorem keys_of_index : m.keys = (caseSet xs).sort := by
  have hperm := (index_eq_some_iff.1 h).2.map Prod.fst
  rw [List.map_map] at hperm
  refine List.Perm.eq_of_pairwise (fun _ _ _ _ => le_antisymm) m.sorted_keys
    (Finset.pairwise_sort _ _) ?_
  refine (List.perm_ext_iff_of_nodup m.nodup_keys (Finset.sort_nodup _ _)).2 fun c => ?_
  rw [Finset.mem_sort, caseSet, List.mem_toFinset]
  exact hperm.mem_iff

theorem mem_keys_of_index {c : ℕ} : c ∈ m.keys ↔ c ∈ caseSet xs := by
  rw [keys_of_index h, Finset.mem_sort]

theorem get_of_index {c : ℕ} (hc : c ∈ caseSet xs) : m.get c = some (scoreAt xs c) := by
  rw [caseSet, List.mem_toFinset] at hc
  rcases List.mem_map.1 hc with ⟨s, hs, rfl⟩
  have hfind : (xs.find? fun s' => s'.case == s.case).isSome = true := by
    rw [List.find?_isSome]
    exact ⟨s, hs, beq_self_eq_true _⟩
  rcases Option.isSome_iff_exists.1 hfind with ⟨s', hs'⟩
  have hcase : s'.case = s.case := by
    have := List.find?_some hs'
    rwa [beq_iff_eq] at this
  unfold scoreAt
  rw [hs', Option.map_some, Option.getD_some, OrdMap.get_eq_some_iff,
    (index_eq_some_iff.1 h).2.mem_iff, ← hcase]
  exact List.mem_map_of_mem (List.mem_of_find?_eq_some hs')

theorem get_of_not_mem {c : ℕ} (hc : c ∉ caseSet xs) : m.get c = none := by
  rw [← Option.not_isSome_iff_eq_none, OrdMap.get_isSome_iff, mem_keys_of_index h]
  exact hc

theorem entries_of_index : m.entries = m.keys.map fun c => (c, scoreAt xs c) := by
  unfold OrdMap.keys
  rw [List.map_map]
  refine (List.map_congr_left ?_).trans (List.map_id _) |>.symm
  intro e he
  have hkey : e.1 ∈ caseSet xs := (mem_keys_of_index h).1 (List.mem_map_of_mem he)
  have hget := get_of_index h hkey
  rw [OrdMap.get_eq_some_iff.2 he, Option.some.injEq] at hget
  exact Prod.ext rfl hget.symm

end Index

/-- The differences, case by case. -/
theorem deltas_eq {run baseline : List CaseScore} {r b : OrdMap ℕ ℚ} (hr : index run = some r)
    (hb : index baseline = some b) :
    (r.entries.filterMap fun e => (b.get e.1).map fun prev => e.2 - prev) =
      (shared run baseline).map fun c => scoreAt run c - scoreAt baseline c := by
  have hshared : shared run baseline = r.keys.filter fun c => decide (c ∈ caseSet baseline) := by
    refine List.Perm.eq_of_pairwise (fun _ _ _ _ => le_antisymm) (Finset.pairwise_sort _ _)
      (r.sorted_keys.filter _) ?_
    refine (List.perm_ext_iff_of_nodup (Finset.sort_nodup _ _) (r.nodup_keys.filter _)).2
      fun c => ?_
    rw [Finset.mem_sort, Finset.mem_inter, List.mem_filter, mem_keys_of_index hr,
      decide_eq_true_iff]
  rw [hshared, entries_of_index hr, List.filterMap_map, ← List.filterMap_eq_filter,
    List.map_filterMap]
  refine List.filterMap_congr ?_
  intro c _
  rw [Function.comp_apply]
  by_cases hc : c ∈ caseSet baseline
  · rw [get_of_index hb hc]
    simp [hc]
  · rw [get_of_not_mem hb hc]
    simp [hc]

theorem length_union {run baseline : List CaseScore} {r b : OrdMap ℕ ℚ} (hr : index run = some r)
    (hb : index baseline = some b) :
    (r.keys ++ b.keys).dedup.length = (caseSet run ∪ caseSet baseline).card := by
  rw [← List.card_toFinset, List.toFinset_append, keys_of_index hr, keys_of_index hb,
    Finset.sort_toFinset, Finset.sort_toFinset]

/-- The pairing of two lists, over the sets of their cases. -/
theorem pairedDeltasByCase_eq (run baseline : List CaseScore) :
    pairedDeltasByCase run baseline =
      if run = [] ∨ baseline = [] then .error .empty
      else if (run.map CaseScore.case).Nodup ∧ (baseline.map CaseScore.case).Nodup then
        if (shared run baseline).length = 0 then .error .disjoint
        else if (shared run baseline).length < 2 then
          .error (.tooFewShared (shared run baseline).length)
        else .ok
          { deltas := (shared run baseline).map fun c => scoreAt run c - scoreAt baseline c
            retained := (shared run baseline).length
            dropped := (caseSet run ∪ caseSet baseline).card - (shared run baseline).length }
      else .error .duplicateCaseIds := by
  unfold pairedDeltasByCase
  have hempty : (run.isEmpty || baseline.isEmpty) = true ↔ run = [] ∨ baseline = [] := by
    rw [Bool.or_eq_true, List.isEmpty_iff, List.isEmpty_iff]
  by_cases he : run = [] ∨ baseline = []
  · rw [if_pos (hempty.2 he), if_pos he]
  · rw [if_neg (fun h => he (hempty.1 h)), if_neg he]
    cases hr : index run with
    | none =>
      have hrun : ¬ (run.map CaseScore.case).Nodup := by
        rw [← index_isSome_iff, hr]
        exact Bool.false_ne_true
      rw [if_neg fun h => hrun h.1]
    | some r =>
      cases hb : index baseline with
      | none =>
        have hbase : ¬ (baseline.map CaseScore.case).Nodup := by
          rw [← index_isSome_iff, hb]
          exact Bool.false_ne_true
        rw [if_neg fun h => hbase h.2]
      | some b =>
        simp only
        rw [deltas_eq hr hb, List.length_map, length_union hr hb,
          if_pos (And.intro (index_eq_some_iff.1 hr).1 (index_eq_some_iff.1 hb).1)]

theorem length_shared_le (run baseline : List CaseScore) :
    (shared run baseline).length ≤ (caseSet run ∪ caseSet baseline).card := by
  rw [shared, Finset.length_sort]
  exact Finset.card_le_card fun c hc => Finset.mem_union_left _ (Finset.mem_inter.1 hc).1

/-- When there is a pairing, and what it is. -/
theorem pairedDeltasByCase_eq_ok_iff {run baseline : List CaseScore} {p : PairedByCase} :
    pairedDeltasByCase run baseline = .ok p ↔
      (run ≠ [] ∧ baseline ≠ [] ∧ (run.map CaseScore.case).Nodup ∧
        (baseline.map CaseScore.case).Nodup ∧ 2 ≤ (shared run baseline).length) ∧
      p.deltas = (shared run baseline).map (fun c => scoreAt run c - scoreAt baseline c) ∧
      p.retained = (shared run baseline).length ∧
      p.retained + p.dropped = (caseSet run ∪ caseSet baseline).card := by
  have hle := length_shared_le run baseline
  rw [pairedDeltasByCase_eq]
  by_cases he : run = [] ∨ baseline = []
  · rw [if_pos he]
    -- an empty side is refused first
    refine ⟨fun h => (nomatch h), fun h => ?_⟩
    exact absurd he (not_or.2 ⟨h.1.1, h.1.2.1⟩)
  · rw [if_neg he]
    by_cases hnodup : (run.map CaseScore.case).Nodup ∧ (baseline.map CaseScore.case).Nodup
    · rw [if_pos hnodup]
      by_cases hzero : (shared run baseline).length = 0
      · rw [if_pos hzero]
        refine ⟨fun h => (nomatch h), fun h => ?_⟩
        have := h.1.2.2.2.2
        omega
      · rw [if_neg hzero]
        by_cases hfew : (shared run baseline).length < 2
        · rw [if_pos hfew]
          refine ⟨fun h => (nomatch h), fun h => ?_⟩
          exact absurd h.1.2.2.2.2 (not_le.2 hfew)
        · rw [if_neg hfew]
          rw [not_or] at he
          constructor
          · intro h
            rw [← Except.ok.inj h]
            exact ⟨⟨he.1, he.2, hnodup.1, hnodup.2, not_lt.1 hfew⟩, rfl, rfl,
              Nat.add_sub_cancel' hle⟩
          · intro h
            -- what is dropped is what the union has more
            rcases h with ⟨-, hdeltas, hretained, hunion⟩
            rcases p with ⟨deltas, retained, dropped⟩
            simp only at hdeltas hretained hunion
            subst hdeltas
            subst hretained
            rw [← hunion, Nat.add_sub_cancel_left]
    · rw [if_neg hnodup]
      refine ⟨fun h => (nomatch h), fun h => ?_⟩
      exact absurd ⟨h.1.2.2.1, h.1.2.2.2.1⟩ hnodup

/-- The order of the lists does not matter. -/
theorem pairedDeltasByCase_perm {run run' baseline baseline' : List CaseScore}
    (hr : run.Perm run') (hb : baseline.Perm baseline') :
    pairedDeltasByCase run baseline = pairedDeltasByCase run' baseline' := by
  unfold pairedDeltasByCase
  rw [hr.isEmpty_eq, hb.isEmpty_eq, index_perm hr, index_perm hb]

/-- The other way round every difference is negated. -/
theorem pairedDeltasByCase_swap (run baseline : List CaseScore) :
    pairedDeltasByCase baseline run =
      (pairedDeltasByCase run baseline).map PairedByCase.swap := by
  have hdeltas : (shared run baseline).map (fun c => scoreAt baseline c - scoreAt run c) =
      ((shared run baseline).map fun c => scoreAt run c - scoreAt baseline c).map fun d => -d := by
    rw [List.map_map]
    refine List.map_congr_left ?_
    intro c _
    exact (neg_sub _ _).symm
  rw [pairedDeltasByCase_eq, pairedDeltasByCase_eq, shared_comm baseline run,
    Finset.union_comm (caseSet baseline), hdeltas]
  simp only [@or_comm (baseline = []), @and_comm (baseline.map CaseScore.case).Nodup]
  split_ifs
  · rfl
  · rfl
  · rfl
  · rfl
  · rfl

/-- Lists of the same scores, no one twice, pair alike. -/
theorem pairedDeltasByCase_of_mem_iff {run run' baseline baseline' : List CaseScore}
    {p p' : PairedByCase} (hr : ∀ c, c ∈ run ↔ c ∈ run') (hb : ∀ c, c ∈ baseline ↔ c ∈ baseline')
    (hp : pairedDeltasByCase run baseline = .ok p)
    (hp' : pairedDeltasByCase run' baseline' = .ok p') : p = p' := by
  rcases (pairedDeltasByCase_eq_ok_iff.1 hp).1 with ⟨-, -, hrun, hbase, -⟩
  rcases (pairedDeltasByCase_eq_ok_iff.1 hp').1 with ⟨-, -, hrun', hbase', -⟩
  have hpermr := (List.perm_ext_iff_of_nodup hrun.of_map hrun'.of_map).2 hr
  have hpermb := (List.perm_ext_iff_of_nodup hbase.of_map hbase'.of_map).2 hb
  rw [pairedDeltasByCase_perm hpermr hpermb, hp'] at hp
  exact (Except.ok.inj hp).symm

end LightTrack.Stats
