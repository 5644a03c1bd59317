import Mathlib.Algebra.BigOperators.Group.List.Basic
import Mathlib.Data.List.Dedup
import Mathlib.Tactic.Basic

/-! # Grouping a list by a key

`groupsBy key l` lists the distinct keys of `l`, each with the elements under it.
The groups partition the list, so a sum over the groups of sums inside each is the
sum over the list:

* `foldl_seeded_perm` : a fold seeded by its first element, in any order,
* `sum_groupsBy` : over all groups,
* `sum_groupsBy_filter` : over the groups whose key satisfies a predicate,
* `sum_filter_sub`, `sum_filter_eq_iff` : how the sums of two selections differ,
* `foldl_accumulate_perm` : accumulating entry by entry under a key gives the groups,
* `weightAt_put` : what an entry in the place of another adds to the weight under its key.
-/

namespace Group

variable {α κ M : Type*} [DecidableEq κ]

/-- The distinct keys, each with its elements in the order of the list. -/
def groupsBy (key : α → κ) (l : List α) : List (κ × List α) :=
  (l.map key).dedup.map fun k => (k, l.filter fun a => key a == k)

theorem map_groupsBy {β : Type*} (f : κ × List α → β) (key : α → κ) (l : List α) :
    (groupsBy key l).map f = (l.map key).dedup.map fun k => f (k, l.filter fun a => key a == k) := by
  unfold groupsBy
  rw [List.map_map]
  rfl

/-- A group holds exactly the elements of the list under its key. -/
theorem mem_groupsBy {key : α → κ} {l : List α} {g : κ × List α} (h : g ∈ groupsBy key l) :
    g.2 = l.filter fun a => key a == g.1 := by
  rcases List.mem_map.1 h with ⟨k, -, rfl⟩
  rfl

/-- Elements tagged with their key are grouped into some of the elements. -/
theorem sublist_of_tagged {pairs : List (κ × α)} {l : List α} (hl : pairs.map Prod.snd = l)
    {g : κ × List α}
    (hg : g ∈ (groupsBy Prod.fst pairs).map fun g => (g.1, g.2.map Prod.snd)) : g.2.Sublist l := by
  rcases List.mem_map.1 hg with ⟨g, hmem, rfl⟩
  rw [← hl, mem_groupsBy hmem]
  exact List.filter_sublist.map Prod.snd

theorem keys_groupsBy (key : α → κ) (l : List α) :
    (groupsBy key l).map Prod.fst = (l.map key).dedup := by
  unfold groupsBy
  rw [List.map_map]
  exact List.map_id _

/-- What holds of every key holds of the key of every element. -/
theorem forall_key_iff {key : α → κ} {l : List α} {p : κ → Prop} :
    (∀ g ∈ groupsBy key l, p g.1) ↔ ∀ a ∈ l, p (key a) := by
  have hkeys : (∀ k ∈ (groupsBy key l).map Prod.fst, p k) ↔ ∀ g ∈ groupsBy key l, p g.1 :=
    List.forall_mem_map
  rw [← hkeys, keys_groupsBy]
  simp only [List.mem_dedup]
  exact List.forall_mem_map

theorem nodup_keys (key : α → κ) (l : List α) : ((groupsBy key l).map Prod.fst).Nodup := by
  rw [keys_groupsBy]
  exact List.nodup_dedup _

/-- Every element is in a group. -/
theorem exists_group (key : α → κ) {l : List α} {a : α} (ha : a ∈ l) :
    ∃ g ∈ groupsBy key l, a ∈ g.2 := by
  refine ⟨(key a, l.filter fun b => key b == key a), ?_, ?_⟩
  · exact List.mem_map_of_mem (List.mem_dedup.2 (List.mem_map_of_mem ha))
  · exact List.mem_filter.2 ⟨ha, beq_self_eq_true _⟩

/-- A group is not empty. -/
theorem ne_nil_of_mem_groupsBy {key : α → κ} {l : List α} {g : κ × List α}
    (h : g ∈ groupsBy key l) : g.2 ≠ [] := by
  have hkey : g.1 ∈ l.map key := by
    rw [← List.mem_dedup, ← keys_groupsBy]
    exact List.mem_map_of_mem h
  rcases List.mem_map.1 hkey with ⟨a, ha, hak⟩
  rw [mem_groupsBy h]
  refine List.ne_nil_of_mem (List.mem_filter.2 ⟨ha, ?_⟩)
  rw [hak]
  exact beq_self_eq_true _

/-- Under a key that all elements have there is one group, or none. -/
theorem groupsBy_const {key : α → κ} {k : κ} {l : List α} (h : ∀ a ∈ l, key a = k) :
    groupsBy key l = if l = [] then [] else [(k, l)] := by
  have hkeys : l.map key = List.replicate l.length k :=
    List.eq_replicate_iff.2 ⟨List.length_map _, List.forall_mem_map.2 h⟩
  have hall : l.filter (fun a => key a == k) = l :=
    List.filter_eq_self.2 fun a ha => beq_iff_eq.2 (h a ha)
  unfold groupsBy
  by_cases hnil : l = []
  · rw [if_pos hnil, hnil]
    rfl
  · have hlen : l.length ≠ 0 := fun hlen => hnil (List.length_eq_zero_iff.1 hlen)
    rw [if_neg hnil, hkeys, List.replicate_dedup hlen, List.map_singleton, hall]

/-- Where no key repeats, an element is all there is under its key. -/
theorem filter_key {key : α → κ} {l : List α} (hkeys : (l.map key).Nodup) {a : α} (h : a ∈ l) :
    l.filter (fun b => key b == key a) = [a] := by
  induction l with
  | nil => cases h
  | cons b l ih =>
    rw [List.map_cons, List.nodup_cons] at hkeys
    have hne : ∀ c ∈ l, key c ≠ key b := fun c hc heq => hkeys.1 (heq ▸ List.mem_map_of_mem hc)
    rcases List.mem_cons.1 h with rfl | hmem
    · have hrest : l.filter (fun c => key c == key a) = [] := by
        rw [List.filter_eq_nil_iff]
        intro c hc
        simpa using hne c hc
      rw [List.filter_cons_of_pos (by simp), hrest]
    · have hb : (key b == key a) = false := by
        simpa using (hne a hmem).symm
      rw [List.filter_cons, hb]
      exact ih hkeys.2 hmem

/-- Renaming the keys one to one renames the groups. -/
theorem groupsBy_comp {κ' : Type*} [DecidableEq κ'] {φ : κ → κ'} (hφ : Function.Injective φ)
    (key : α → κ) (l : List α) :
    groupsBy (fun a => φ (key a)) l = (groupsBy key l).map fun g => (φ g.1, g.2) := by
  have hkeys : l.map (fun a => φ (key a)) = (l.map key).map φ := by
    rw [List.map_map]
    rfl
  unfold groupsBy
  rw [hkeys, List.dedup_map_of_injective hφ, List.map_map, List.map_map]
  refine List.map_congr_left ?_
  intro k _
  simp only [Function.comp_apply, Prod.mk.injEq, true_and]
  refine List.filter_congr ?_
  intro a _
  rw [Bool.eq_iff_iff, beq_iff_eq, beq_iff_eq, hφ.eq_iff]

/-- Elements that carry their keys are grouped as they are without. -/
theorem groupsBy_graph (key : α → κ) (l : List α) :
    (groupsBy Prod.fst (l.map fun a => (key a, a))).map (fun g => (g.1, g.2.map Prod.snd)) =
      groupsBy key l := by
  have hkeys : (l.map fun a => (key a, a)).map Prod.fst = l.map key := by
    rw [List.map_map]
    rfl
  unfold groupsBy
  rw [hkeys, List.map_map]
  refine List.map_congr_left ?_
  intro k _
  simp only [Function.comp_apply, List.filter_map, List.map_map]
  exact congrArg (Prod.mk k) (List.map_id _)

section Seeded

variable {σ : Type*} {step : σ → α → σ} {seed : α → σ}

/-- A fold seeded by the first element does not depend on the order, where two elements fold into
any state, and each into the seed of the other, in either order. -/
theorem foldl_seeded_perm {a b : α} {l l' : List α} (h : (a :: l).Perm (b :: l'))
    (hstep : ∀ x ∈ a :: l, ∀ y ∈ a :: l, ∀ s, step (step s x) y = step (step s y) x)
    (hseed : ∀ x ∈ a :: l, ∀ y ∈ a :: l, step (seed x) y = step (seed y) x) :
    l.foldl step (seed a) = l'.foldl step (seed b) := by
  by_cases hab : a = b
  · subst hab
    exact h.cons_inv.foldl_eq' (fun x hx y hy s => hstep x (List.mem_cons_of_mem _ hx) y
      (List.mem_cons_of_mem _ hy) s) _
  · -- both folds start with the two first elements
    have hb : b ∈ l := by
      have hmem := h.symm.subset (List.mem_cons_self ..)
      exact (List.mem_cons.1 hmem).resolve_left fun heq => hab heq.symm
    rcases List.append_of_mem hb with ⟨s, t, rfl⟩
    have hl : (s ++ b :: t).Perm (b :: (s ++ t)) := List.perm_middle
    have hl' : (a :: (s ++ t)).Perm l' := by
      have hboth : (b :: a :: (s ++ t)).Perm (b :: l') :=
        (List.Perm.swap _ _ _).trans ((hl.cons a).symm.trans h)
      exact hboth.cons_inv
    have hfold : ∀ {m m' : List α} (z : σ), m.Perm m' → (∀ x ∈ m, x ∈ a :: (s ++ b :: t)) →
        m.foldl step z = m'.foldl step z := fun z hm hsub =>
      hm.foldl_eq' (fun x hx y hy s => hstep x (hsub x hx) y (hsub y hy) s) z
    rw [hfold _ hl fun x hx => List.mem_cons_of_mem _ hx,
      ← hfold (seed b) hl' fun x hx => ?_, List.foldl_cons, List.foldl_cons,
      hseed a (List.mem_cons_self ..) b (List.mem_cons_of_mem _ hb)]
    rcases List.mem_cons.1 hx with rfl | hrest
    · exact List.mem_cons_self ..
    · exact List.mem_cons_of_mem _ (hl.symm.subset (List.mem_cons_of_mem _ hrest))

end Seeded

section Sum

variable [AddCommMonoid M]

/-- What grows by `g` with every element has grown by the sum over all. -/
theorem foldl_additive {β : Type*} {step : β → α → β} {f : β → M} {g : α → M}
    (h : ∀ b a, f (step b a) = f b + g a) (l : List α) (b : β) :
    f (l.foldl step b) = f b + (l.map g).sum := by
  induction l generalizing b with
  | nil => rw [List.foldl_nil, List.map_nil, List.sum_nil, add_zero]
  | cons a l ih => rw [List.foldl_cons, ih, h, List.map_cons, List.sum_cons, add_assoc]

/-- A value placed at one key of a list without repetitions. -/
theorem sum_single {ks : List κ} (hks : ks.Nodup) {k : κ} (hk : k ∈ ks) (x : M) :
    (ks.map fun k' => if k' = k then x else 0).sum = x := by
  induction ks with
  | nil => simp at hk
  | cons k' ks ih =>
    rcases List.nodup_cons.1 hks with ⟨hfresh, hks⟩
    rw [List.map_cons, List.sum_cons]
    by_cases h : k' = k
    · -- the key does not occur again
      have hzero : (ks.map fun k'' => if k'' = k then x else 0).sum = 0 := by
        apply List.sum_eq_zero
        intro y hy
        rcases List.mem_map.1 hy with ⟨k'', hk'', rfl⟩
        apply if_neg
        rintro rfl
        exact hfresh (h ▸ hk'')
      rw [if_pos h, hzero, add_zero]
    · rw [if_neg h, zero_add]
      apply ih hks
      rcases List.mem_cons.1 hk with rfl | hk
      · exact absurd rfl h
      · exact hk

/-- Splitting a list over keys that cover it. -/
theorem sum_fibers {ks : List κ} (hks : ks.Nodup) (key : α → κ) (f : α → M) (l : List α)
    (hcover : ∀ a ∈ l, key a ∈ ks) :
    (ks.map fun k => ((l.filter fun a => key a == k).map f).sum).sum = (l.map f).sum := by
  induction l with
  | nil => simp
  | cons a l ih =>
    have hsplit : ∀ k, (((a :: l).filter fun b => key b == k).map f).sum =
        (if k = key a then f a else 0) + ((l.filter fun b => key b == k).map f).sum := by
      intro k
      by_cases h : k = key a
      · rw [if_pos h, List.filter_cons_of_pos (by simp [h]), List.map_cons, List.sum_cons]
      · rw [if_neg h, List.filter_cons_of_neg (by simpa using fun heq => h heq.symm), zero_add]
    simp only [hsplit]
    rw [List.sum_map_add, sum_single hks (hcover a (List.mem_cons_self ..)),
      ih fun b hb => hcover b (List.mem_cons_of_mem _ hb), List.map_cons, List.sum_cons]

/-- **The groups of a list add up to the list.** -/
theorem sum_groupsBy (key : α → κ) (f : α → M) (l : List α) :
    ((groupsBy key l).map fun g => (g.2.map f).sum).sum = (l.map f).sum := by
  unfold groupsBy
  rw [List.map_map]
  apply sum_fibers (List.nodup_dedup _)
  intro a ha
  rw [List.mem_dedup]
  exact List.mem_map_of_mem ha

/-- The groups whose key satisfies `p` add up to the elements whose key does. -/
theorem sum_groupsBy_filter (key : α → κ) (p : κ → Bool) (f : α → M) (l : List α) :
    (((groupsBy key l).filter fun g => p g.1).map fun g => (g.2.map f).sum).sum =
      ((l.filter fun a => p (key a)).map f).sum := by
  -- a group counts whole or not at all
  have hgroups : ∀ gs : List (κ × List α), (∀ g ∈ gs, ∀ a ∈ g.2, key a = g.1) →
      ((gs.filter fun g => p g.1).map fun g => (g.2.map f).sum).sum =
        (gs.map fun g => (g.2.map fun a => if p (key a) then f a else 0).sum).sum := by
    intro gs hgs
    induction gs with
    | nil => rfl
    | cons g gs ih =>
      have hih := ih fun g' hg' => hgs g' (List.mem_cons_of_mem _ hg')
      have hkey := hgs g (List.mem_cons_self ..)
      rw [List.map_cons, List.sum_cons, ← hih]
      by_cases hp : p g.1 = true
      · rw [List.filter_cons_of_pos (by simpa using hp), List.map_cons, List.sum_cons]
        congr 2
        apply List.map_congr_left
        intro a ha
        rw [hkey a ha, if_pos hp]
      · rw [List.filter_cons_of_neg (by simpa using hp)]
        have hzero : (g.2.map fun a => if p (key a) then f a else 0).sum = 0 := by
          apply List.sum_eq_zero
          intro y hy
          rcases List.mem_map.1 hy with ⟨a, ha, rfl⟩
          rw [hkey a ha, if_neg hp]
        rw [hzero, zero_add]
  have hmem : ∀ g ∈ groupsBy key l, ∀ a ∈ g.2, key a = g.1 := by
    intro g hg a ha
    rw [mem_groupsBy hg] at ha
    simpa using (List.mem_filter.1 ha).2
  rw [hgroups _ hmem, sum_groupsBy key (fun a => if p (key a) then f a else 0) l]
  -- and what does not count adds nothing
  clear hgroups hmem
  induction l with
  | nil => rfl
  | cons a l ih =>
    rw [List.map_cons, List.sum_cons, ih]
    by_cases hp : p (key a) = true
    · rw [List.filter_cons_of_pos (by simpa using hp), List.map_cons, List.sum_cons, if_pos hp]
    · rw [List.filter_cons_of_neg (by simpa using hp), if_neg hp, zero_add]

end Sum

/-- Two selections of a list differ by what only the one and only the other has. -/
theorem sum_filter_sub [AddCommGroup M] (p q : α → Bool) (f : α → M) (l : List α) :
    ((l.filter p).map f).sum - ((l.filter q).map f).sum =
      ((l.filter fun a => p a && !q a).map f).sum - ((l.filter fun a => q a && !p a).map f).sum := by
  have hsplit : ∀ (p q : α → Bool), ((l.filter p).map f).sum =
      ((l.filter fun a => p a && q a).map f).sum + ((l.filter fun a => p a && !q a).map f).sum := by
    intro p q
    induction l with
    | nil => simp
    | cons a l ih =>
      cases hp : p a with
      | false => simp [hp, ih]
      | true =>
        cases hq : q a with
        | false =>
          simp only [List.filter_cons, hp, hq, Bool.and_false, Bool.not_false, Bool.and_true,
            if_true, Bool.false_eq_true, if_false, List.map_cons, List.sum_cons, ih]
          exact add_left_comm _ _ _
        | true =>
          simp only [List.filter_cons, hp, hq, Bool.and_true, Bool.not_true, Bool.and_false,
            if_true, Bool.false_eq_true, if_false, List.map_cons, List.sum_cons, ih]
          exact (add_assoc _ _ _).symm
  have hboth : (fun a => q a && p a) = fun a => p a && q a := funext fun a => Bool.and_comm _ _
  rw [hsplit p q, hsplit q p, hboth]
  exact add_sub_add_left_eq_sub _ _ _

/-- Two selections of a list have the same sum when what only the one has adds up to what only the
other has. -/
theorem sum_filter_eq_iff [AddCommGroup M] (p q : α → Bool) (f : α → M) (l : List α) :
    ((l.filter p).map f).sum = ((l.filter q).map f).sum ↔
      ((l.filter fun a => p a && !q a).map f).sum = ((l.filter fun a => q a && !p a).map f).sum := by
  rw [← sub_eq_zero, sum_filter_sub, sub_eq_zero]

/-- Groups are formed alike by keys that agree on the list. -/
theorem groupsBy_congr {key key' : α → κ} {l : List α} (h : ∀ a ∈ l, key a = key' a) :
    groupsBy key l = groupsBy key' l := by
  unfold groupsBy
  rw [List.map_congr_left h]
  refine List.map_congr_left ?_
  intro k _
  refine congrArg (Prod.mk k) (List.filter_congr ?_)
  intro a ha
  rw [h a ha]

/-! ## Accumulating under a key -/

section Accumulate

variable {β : Type*} (key : α → κ) (init : κ → β) (step : β → α → β)

/-- Take an element into the entry under its key; an entry that is not there starts as `init`. -/
def accumulate (a : α) : List (κ × β) → List (κ × β)
  | [] => [(key a, step (init (key a)) a)]
  | e :: m =>
    if e.1 = key a then (e.1, step e.2 a) :: m else e :: accumulate a m

variable {key init step}

theorem keys_accumulate (a : α) (m : List (κ × β)) :
    (accumulate key init step a m).map Prod.fst =
      if key a ∈ m.map Prod.fst then m.map Prod.fst else m.map Prod.fst ++ [key a] := by
  induction m with
  | nil => rfl
  | cons e m ih =>
    unfold accumulate
    by_cases he : e.1 = key a
    · rw [if_pos he, List.map_cons, List.map_cons, if_pos (List.mem_cons.2 (.inl he.symm))]
    · rw [if_neg he, List.map_cons, List.map_cons, ih]
      by_cases hm : key a ∈ m.map Prod.fst
      · rw [if_pos hm, if_pos (List.mem_cons_of_mem _ hm)]
      · rw [if_neg hm, if_neg]
        · rfl
        · intro hcon
          rcases List.mem_cons.1 hcon with hcon | hcon
          · exact he hcon.symm
          · exact hm hcon

/-- What an element changes: the entry under its key. -/
theorem mem_accumulate {a : α} {m : List (κ × β)} (hm : (m.map Prod.fst).Nodup) {e : κ × β}
    (he : e ∈ accumulate key init step a m) :
    e.1 ≠ key a ∧ e ∈ m ∨ e.1 = key a ∧
      ((∃ b, (key a, b) ∈ m ∧ e.2 = step b a) ∨
        key a ∉ m.map Prod.fst ∧ e.2 = step (init (key a)) a) := by
  induction m with
  | nil =>
    rw [accumulate, List.mem_singleton] at he
    subst he
    exact .inr ⟨rfl, .inr ⟨List.not_mem_nil, rfl⟩⟩
  | cons e' m ih =>
    rw [List.map_cons, List.nodup_cons] at hm
    unfold accumulate at he
    by_cases hkey : e'.1 = key a
    · rw [if_pos hkey] at he
      rcases List.mem_cons.1 he with rfl | he
      · refine .inr ⟨hkey, .inl ⟨e'.2, ?_, rfl⟩⟩
        rw [← hkey]
        exact List.mem_cons_self ..
      · refine .inl ⟨?_, List.mem_cons_of_mem _ he⟩
        intro hcon
        rw [← hkey] at hcon
        exact hm.1 (hcon ▸ List.mem_map_of_mem he)
    · rw [if_neg hkey] at he
      rcases List.mem_cons.1 he with rfl | he
      · exact .inl ⟨hkey, List.mem_cons_self ..⟩
      · rcases ih hm.2 he with ⟨hne, hmem⟩ | ⟨heq, ⟨b, hb, hstep⟩ | ⟨hnew, hstep⟩⟩
        · exact .inl ⟨hne, List.mem_cons_of_mem _ hmem⟩
        · exact .inr ⟨heq, .inl ⟨b, List.mem_cons_of_mem _ hb, hstep⟩⟩
        · refine .inr ⟨heq, .inr ⟨?_, hstep⟩⟩
          intro hcon
          rcases List.mem_cons.1 hcon with hcon | hcon
          · exact hkey hcon.symm
          · exact hnew hcon

/-- What the entries under a key weigh. -/
def weightAt [AddCommMonoid M] (f : β → M) (m : List (κ × β)) (k : κ) : M :=
  (m.map fun e => if e.1 = k then f e.2 else 0).sum

section Weight

variable [AddCommMonoid M] {f : β → M}

@[simp] theorem weightAt_nil (k : κ) : weightAt f [] k = 0 := rfl

@[simp] theorem weightAt_cons (e : κ × β) (m : List (κ × β)) (k : κ) :
    weightAt f (e :: m) k = (if e.1 = k then f e.2 else 0) + weightAt f m k := by
  unfold weightAt
  rw [List.map_cons, List.sum_cons]

/-- Entries that weigh nothing can be dropped. -/
theorem weightAt_filter {p : κ × β → Bool} {m : List (κ × β)}
    (h : ∀ e ∈ m, p e = false → f e.2 = 0) (k : κ) : weightAt f (m.filter p) k = weightAt f m k := by
  induction m with
  | nil => rfl
  | cons e m ih =>
    have hih := ih fun e' he' => h e' (List.mem_cons_of_mem _ he')
    cases hp : p e with
    | true => rw [List.filter_cons_of_pos hp, weightAt_cons, weightAt_cons, hih]
    | false =>
      rw [List.filter_cons_of_neg (by simp [hp]), weightAt_cons, hih,
        h e (List.mem_cons_self ..) hp, ite_self, zero_add]

theorem weightAt_eq_zero {m : List (κ × β)} {k : κ} (h : ∀ e ∈ m, e.1 = k → f e.2 = 0) :
    weightAt f m k = 0 := by
  apply List.sum_eq_zero
  intro x hx
  rcases List.mem_map.1 hx with ⟨e, he, rfl⟩
  by_cases hk : e.1 = k
  · rw [if_pos hk, h e he hk]
  · rw [if_neg hk]

/-- Where no key repeats, the weight under a key is that of its entry. -/
theorem weightAt_eq_lookup [BEq κ] [LawfulBEq κ] {m : List (κ × β)} (hm : (m.map Prod.fst).Nodup) (k : κ) :
    weightAt f m k = ((m.lookup k).map f).getD 0 := by
  induction m with
  | nil => rfl
  | cons e m ih =>
    rw [List.map_cons, List.nodup_cons] at hm
    rw [weightAt_cons, List.lookup_cons]
    by_cases hk : e.1 = k
    · have hrest : weightAt f m k = 0 := by
        refine weightAt_eq_zero ?_
        intro e' he' hk'
        exact absurd (List.mem_map_of_mem he') (hk' ▸ hk ▸ hm.1)
      have hown : (k == e.1) = true := beq_iff_eq.2 hk.symm
      rw [if_pos hk, hrest, add_zero, hown]
      rfl
    · have hother : (k == e.1) = false := beq_eq_false_iff_ne.2 (Ne.symm hk)
      rw [if_neg hk, zero_add, ih hm.2, hother]

/-- Putting an entry in the place of another adds to the weight under its key. -/
theorem weightAt_put {m : List (κ × β)} {k : κ} {v : β} {w : M} (hv : f v = weightAt f m k + w)
    (k' : κ) :
    weightAt f ((k, v) :: m.filter fun e => e.1 ≠ k) k' =
      weightAt f m k' + if k = k' then w else 0 := by
  rw [weightAt_cons]
  by_cases hk : k = k'
  · have hnone : weightAt f (m.filter fun e => e.1 ≠ k) k' = 0 := by
      refine weightAt_eq_zero ?_
      intro e he hek
      have hne := of_decide_eq_true (List.mem_filter.1 he).2
      exact absurd (hek.trans hk.symm) hne
    rw [if_pos hk, if_pos hk, hnone, add_zero, hv, hk]
  · have hsame : weightAt f (m.filter fun e => e.1 ≠ k) k' = weightAt f m k' := by
      clear hv
      induction m with
      | nil => rfl
      | cons e m ih =>
        by_cases hek : e.1 = k
        · rw [List.filter_cons_of_neg (by simp [hek]), ih, weightAt_cons,
            if_neg fun h => hk (hek.symm.trans h), zero_add]
        · rw [List.filter_cons_of_pos (by simp [hek]), weightAt_cons, weightAt_cons, ih]
    rw [if_neg hk, if_neg hk, hsame, zero_add, add_zero]

end Weight

/-- The entries once the elements `seen` have been taken in. -/
structure Accumulated (key : α → κ) (init : κ → β) (step : β → α → β) (seen : List α)
    (m : List (κ × β)) : Prop where
  keys : (m.map Prod.fst).Nodup
  cover : ∀ k, k ∈ m.map Prod.fst ↔ k ∈ seen.map key
  value : ∀ e ∈ m, e.2 = (seen.filter fun a => key a == e.1).foldl step (init e.1)

theorem accumulated_step {seen : List α} {m : List (κ × β)}
    (h : Accumulated key init step seen m) (a : α) :
    Accumulated key init step (seen ++ [a]) (accumulate key init step a m) := by
  refine ⟨?_, ?_, ?_⟩
  · rw [keys_accumulate]
    split_ifs with hmem
    · exact h.keys
    · exact List.nodup_append.2 ⟨h.keys, List.nodup_singleton _, fun k hk k' hk' heq =>
        hmem ((List.mem_singleton.1 hk') ▸ heq ▸ hk)⟩
  · intro k
    rw [keys_accumulate, List.map_append, List.mem_append, ← h.cover k, List.map_singleton,
      List.mem_singleton]
    split_ifs with hmem
    · constructor
      · exact .inl
      · rintro (hk | rfl)
        · exact hk
        · exact hmem
    · rw [List.mem_append, List.mem_singleton]
  · intro e he
    rcases mem_accumulate h.keys he with ⟨hne, hmem⟩ | ⟨heq, hval⟩
    · have hother : (key a == e.1) = false := by simpa using hne.symm
      rw [h.value e hmem, List.filter_append, List.filter_cons, hother]
      simp
    · have hown : (key a == e.1) = true := by simpa using heq.symm
      rw [List.filter_append, List.filter_cons, hown, if_pos rfl, List.filter_nil,
        List.foldl_append, List.foldl_cons, List.foldl_nil]
      rcases hval with ⟨b, hb, hstep⟩ | ⟨hnew, hstep⟩
      · have hb' : b = (seen.filter fun c => key c == key a).foldl step (init (key a)) :=
          h.value _ hb
        rw [hstep, heq, ← hb']
      · -- the first element under its key
        have hfresh : (seen.filter fun b => key b == e.1) = [] := by
          rw [List.filter_eq_nil_iff]
          intro b hb hcon
          rw [h.cover] at hnew
          exact hnew (heq ▸ beq_iff_eq.1 hcon ▸ List.mem_map_of_mem hb)
        rw [hstep, hfresh, List.foldl_nil, heq]

theorem accumulated_foldl (l : List α) {seen : List α} {m : List (κ × β)}
    (h : Accumulated key init step seen m) :
    Accumulated key init step (seen ++ l) (l.foldl (fun m a => accumulate key init step a m) m) := by
  induction l generalizing seen m with
  | nil => rwa [List.append_nil]
  | cons a l ih =>
    have hnext := ih (accumulated_step h a)
    rwa [List.append_assoc] at hnext

/-- **Accumulating a list gives its groups**, each folded from the start. -/
theorem foldl_accumulate_perm (key : α → κ) (init : κ → β) (step : β → α → β) (l : List α) :
    (l.foldl (fun m a => accumulate key init step a m) []).Perm
      ((groupsBy key l).map fun g => (g.1, g.2.foldl step (init g.1))) := by
  have hnil : Accumulated key init step [] [] := ⟨List.nodup_nil, by simp, by simp⟩
  have h := accumulated_foldl l hnil
  rw [List.nil_append] at h
  have hkeys : ((groupsBy key l).map fun g => (g.1, g.2.foldl step (init g.1))).map Prod.fst =
      (groupsBy key l).map Prod.fst := by
    rw [List.map_map]
    rfl
  refine (List.perm_ext_iff_of_nodup h.keys.of_map
    (List.Nodup.of_map Prod.fst (hkeys ▸ nodup_keys key l))).2 ?_
  intro e
  constructor
  · intro he
    have hk : e.1 ∈ l.map key := (h.cover e.1).1 (List.mem_map_of_mem he)
    refine List.mem_map.2 ⟨(e.1, l.filter fun a => key a == e.1), ?_, ?_⟩
    · exact List.mem_map_of_mem (List.mem_dedup.2 hk)
    · rw [← h.value e he]
  · intro he
    rcases List.mem_map.1 he with ⟨g, hg, rfl⟩
    have hk : g.1 ∈ l.map key := by
      rw [← List.mem_dedup, ← keys_groupsBy]
      exact List.mem_map_of_mem hg
    rcases List.mem_map.1 ((h.cover g.1).2 hk) with ⟨e, he, hfst⟩
    have hval := h.value e he
    rw [hfst, ← mem_groupsBy hg] at hval
    have heq : e = (g.1, g.2.foldl step (init g.1)) := Prod.ext hfst hval
    rw [← heq]
    exact he

end Accumulate

end Group
