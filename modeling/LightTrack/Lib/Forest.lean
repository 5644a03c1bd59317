import Mathlib.Data.List.Induction
import Mathlib.Data.List.Nodup
import Mathlib.Data.List.Perm.Subperm
import Mathlib.Logic.Relation
import Mathlib.Tactic.Common

/-! # Depth-first forests

Trees grown over a graph that is given by the children of each node.  A node is taken once: where it
comes up again nothing grows.

* `growAll_spec` : every node that is offered is taken, once, with children of its own in order,
* `mem_taken_iff` : what is taken is what can be reached,
* `mem_roots_iff` : what becomes a root.
-/

namespace Forest

/-! ## Trees -/

/-- A tree with any number of children in an order. -/
inductive Rose (α : Type*) where
  | node (a : α) (children : List (Rose α))

namespace Rose

variable {α : Type*}

/-- The node at the root. -/
def root : Rose α → α
  | node a _ => a

mutual

/-- Every node of a tree with the roots of its subtrees, from the root on. -/
def families : Rose α → List (α × List α)
  | node a cs => (a, cs.map root) :: familiesAll cs

/-- Every node of some trees with the roots of its subtrees. -/
def familiesAll : List (Rose α) → List (α × List α)
  | [] => []
  | t :: ts => families t ++ familiesAll ts

end

theorem familiesAll_append (ts ts' : List (Rose α)) :
    familiesAll (ts ++ ts') = familiesAll ts ++ familiesAll ts' := by
  induction ts with
  | nil => simp [familiesAll]
  | cons t ts ih => simp [familiesAll, ih]

theorem familiesAll_singleton (t : Rose α) : familiesAll [t] = families t := by
  simp [familiesAll]

end Rose

open Rose

variable {α : Type*}

/-- The nodes of some trees. -/
def names (ts : List (Rose α)) : List α := (familiesAll ts).map Prod.fst

theorem names_append (ts ts' : List (Rose α)) : names (ts ++ ts') = names ts ++ names ts' := by
  simp [names, familiesAll_append]

theorem names_node (a : α) (cs : List (Rose α)) : names [node a cs] = a :: names cs := by
  simp [names, familiesAll_singleton, families]

mutual

theorem families_perm (t : Rose α) :
    ((families t).map Prod.fst).Perm (t.root :: (families t).flatMap Prod.snd) := by
  cases t with
  | node a cs =>
    rw [families, List.map_cons, List.flatMap_cons, Rose.root]
    exact (familiesAll_perm cs).cons a

/-- **Every node is a root or a child of one node**, as often as it is there. -/
theorem familiesAll_perm (ts : List (Rose α)) :
    (names ts).Perm (ts.map root ++ (familiesAll ts).flatMap Prod.snd) := by
  cases ts with
  | nil => simp [names, familiesAll]
  | cons t ts =>
    have ht := families_perm t
    have hts := familiesAll_perm ts
    unfold names at hts ⊢
    rw [familiesAll, List.map_append, List.flatMap_append, List.map_cons, List.cons_append]
    refine (ht.append hts).trans ?_
    rw [List.cons_append, ← List.append_assoc, ← List.append_assoc]
    exact (List.perm_append_comm.append_right _).cons _

end

/-! ## Growing -/

section Grow

/-- Trees grown from each node of a list, under what is taken before. -/
def growAll (grow : α → List α → Option (Rose α) × List α) :
    List α → List α → List (Rose α) × List α
  | [], taken => ([], taken)
  | a :: as, taken =>
    let tree := grow a taken
    let rest := growAll grow as tree.2
    (tree.1.toList ++ rest.1, rest.2)

/-- The tree grown from a node, no deeper than `fuel`. -/
def grow [DecidableEq α] (kids : α → List α) : ℕ → α → List α → Option (Rose α) × List α
  | 0, _, taken => (none, taken)
  | fuel + 1, a, taken =>
    if a ∈ taken then (none, taken)
    else
      let sub := growAll (grow kids fuel) (kids a) (a :: taken)
      (some (node a sub.1), sub.2)

theorem growAll_append (g : α → List α → Option (Rose α) × List α) (as bs taken : List α) :
    growAll g (as ++ bs) taken =
      ((growAll g as taken).1 ++ (growAll g bs (growAll g as taken).2).1,
        (growAll g bs (growAll g as taken).2).2) := by
  induction as generalizing taken with
  | nil => simp [growAll]
  | cons a as ih => simp [growAll, ih]

theorem grow_of_mem [DecidableEq α] {kids : α → List α} (fuel : ℕ) {a : α} {taken : List α}
    (h : a ∈ taken) : grow kids fuel a taken = (none, taken) := by
  cases fuel with
  | zero => simp [grow]
  | succ fuel => simp [grow, h]

theorem grow_of_notMem [DecidableEq α] {kids : α → List α} (fuel : ℕ) {a : α} {taken : List α}
    (h : a ∉ taken) : grow kids (fuel + 1) a taken =
      (some (node a (growAll (grow kids fuel) (kids a) (a :: taken)).1),
        (growAll (grow kids fuel) (kids a) (a :: taken)).2) := by
  simp [grow, h]

end Grow

/-! ## What is grown -/

/-- A node is a child of another. -/
def Child (kids : α → List α) (a b : α) : Prop := b ∈ kids a

/-- Trees grown from the nodes `as`, under `taken` before and `taken'` after. -/
structure Grown (kids : α → List α) (universe_ as taken : List α) (ts : List (Rose α))
    (taken' : List α) : Prop where
  /-- what is taken besides is what the trees consist of -/
  taken : taken'.Perm (names ts ++ taken)
  /-- once -/
  nodup : taken'.Nodup
  within : taken' ⊆ universe_
  offered : as ⊆ taken'
  roots : (ts.map root).Sublist as
  /-- children are in order -/
  families : ∀ f ∈ familiesAll ts, f.2.Sublist (kids f.1)
  closed : ∀ f ∈ familiesAll ts, kids f.1 ⊆ taken'
  reached : ∀ a ∈ names ts, ∃ t ∈ ts, Relation.ReflTransGen (Child kids) t.root a

section Spec

variable {kids : α → List α} {universe_ : List α}

theorem Grown.append {as bs taken taken' taken'' : List α} {ts us : List (Rose α)}
    (h : Grown kids universe_ as taken ts taken') (h' : Grown kids universe_ bs taken' us taken'') :
    Grown kids universe_ (as ++ bs) taken (ts ++ us) taken'' := by
  have hsub : taken' ⊆ taken'' := by
    intro a ha
    rw [h'.taken.mem_iff]
    exact List.mem_append_right _ ha
  constructor
  · rw [names_append, List.append_assoc]
    refine h'.taken.trans ((h.taken.append_left _).trans ?_)
    rw [← List.append_assoc, ← List.append_assoc]
    exact List.perm_append_comm.append_right _
  · exact h'.nodup
  · exact h'.within
  · exact List.append_subset.2 ⟨List.Subset.trans h.offered hsub, h'.offered⟩
  · rw [List.map_append]
    exact h.roots.append h'.roots
  · rw [familiesAll_append]
    intro f hf
    rcases List.mem_append.1 hf with hf | hf
    · exact h.families f hf
    · exact h'.families f hf
  · rw [familiesAll_append]
    intro f hf
    rcases List.mem_append.1 hf with hf | hf
    · exact List.Subset.trans (h.closed f hf) hsub
    · exact h'.closed f hf
  · rw [names_append]
    intro a ha
    rcases List.mem_append.1 ha with ha | ha
    · rcases h.reached a ha with ⟨t, ht, hreach⟩
      exact ⟨t, List.mem_append_left _ ht, hreach⟩
    · rcases h'.reached a ha with ⟨t, ht, hreach⟩
      exact ⟨t, List.mem_append_right _ ht, hreach⟩

/-- A tree over the trees of a node's children. -/
theorem Grown.node {a : α} {taken taken' : List α} {ts : List (Rose α)}
    (h : Grown kids universe_ (kids a) (a :: taken) ts taken') :
    Grown kids universe_ [a] taken [node a ts] taken' := by
  have hmem : a ∈ taken' := by
    rw [h.taken.mem_iff]
    exact List.mem_append_right _ List.mem_cons_self
  constructor
  · rw [names_node]
    exact h.taken.trans List.perm_middle
  · exact h.nodup
  · exact h.within
  · exact List.cons_subset.2 ⟨hmem, List.nil_subset _⟩
  · exact List.Sublist.refl _
  · rw [familiesAll_singleton, Rose.families]
    intro f hf
    rcases List.mem_cons.1 hf with rfl | hf
    · exact h.roots
    · exact h.families f hf
  · rw [familiesAll_singleton, Rose.families]
    intro f hf
    rcases List.mem_cons.1 hf with rfl | hf
    · exact h.offered
    · exact h.closed f hf
  · rw [names_node]
    intro b hb
    refine ⟨Rose.node a ts, List.mem_singleton.2 rfl, ?_⟩
    rcases List.mem_cons.1 hb with rfl | hb
    · exact .refl
    · -- below a child of the root
      rcases h.reached b hb with ⟨t, ht, hreach⟩
      have hkid : t.root ∈ kids a := h.roots.subset (List.mem_map.2 ⟨t, ht, rfl⟩)
      exact Relation.ReflTransGen.head hkid hreach

theorem Grown.nil {taken : List α} (hnodup : taken.Nodup) (hwithin : taken ⊆ universe_) :
    Grown kids universe_ [] taken [] taken := by
  constructor
  · simp [names, familiesAll]
  · exact hnodup
  · exact hwithin
  · exact List.nil_subset _
  · exact List.Sublist.refl _
  · simp [familiesAll]
  · simp [familiesAll]
  · simp [names, familiesAll]

/-- A node that is taken already grows nothing. -/
theorem Grown.skip {a : α} {taken : List α} (hnodup : taken.Nodup) (hwithin : taken ⊆ universe_)
    (h : a ∈ taken) : Grown kids universe_ [a] taken [] taken := by
  rcases @Grown.nil _ kids _ _ hnodup hwithin with ⟨h₁, h₂, h₃, -, -, h₆, h₇, h₈⟩
  exact ⟨h₁, h₂, h₃, List.cons_subset.2 ⟨h, List.nil_subset _⟩, List.nil_sublist _, h₆, h₇, h₈⟩

/-- **Growing takes every node that is offered**, given fuel for those that are left. -/
theorem growAll_spec [DecidableEq α] (hkids : ∀ a ∈ universe_, kids a ⊆ universe_) (fuel : ℕ) :
    ∀ (as taken : List α), taken.Nodup → taken ⊆ universe_ → as ⊆ universe_ →
      universe_.length ≤ fuel + taken.length →
      Grown kids universe_ as taken (growAll (grow kids fuel) as taken).1
        (growAll (grow kids fuel) as taken).2 := by
  -- the outer induction is on the depth, the inner one along the list
  induction fuel with
  | zero =>
    intro as taken hnodup hwithin has hfuel
    have hall : universe_ ⊆ taken := by
      have hperm := (List.subperm_of_subset hnodup hwithin).perm_of_length_le (by omega)
      exact hperm.symm.subset
    induction as with
    | nil => exact .nil hnodup hwithin
    | cons a as ih =>
      have ha : a ∈ taken := hall (has List.mem_cons_self)
      have hrest := ih fun b hb => has (List.mem_cons_of_mem a hb)
      unfold growAll
      rw [grow_of_mem _ ha]
      exact (Grown.skip hnodup hwithin ha).append hrest
  | succ fuel ihfuel =>
    intro as
    induction as with
    | nil =>
      intro taken hnodup hwithin _ _
      exact .nil hnodup hwithin
    | cons a as ih =>
      intro taken hnodup hwithin has hfuel
      have hrest : as ⊆ universe_ := fun b hb => has (List.mem_cons_of_mem a hb)
      unfold growAll
      by_cases ha : a ∈ taken
      · rw [grow_of_mem _ ha]
        exact (Grown.skip hnodup hwithin ha).append (ih taken hnodup hwithin hrest hfuel)
      · have hin : a ∈ universe_ := has List.mem_cons_self
        have hsub := ihfuel (kids a) (a :: taken) (List.nodup_cons.2 ⟨ha, hnodup⟩)
          (List.cons_subset.2 ⟨hin, hwithin⟩) (hkids a hin)
          (by rw [List.length_cons]; omega)
        have hlen := hsub.taken.length_eq
        rw [List.length_append, List.length_cons] at hlen
        have hnext := ih _ hsub.nodup hsub.within hrest (by omega)
        rw [grow_of_notMem fuel ha]
        exact (Grown.node hsub).append hnext

/-! ## Roots -/

section Roots

variable {as taken' : List α} {ts : List (Rose α)}

/-- **What is taken is what can be reached.** -/
theorem mem_taken_iff (h : Grown kids universe_ as [] ts taken') {x : α} :
    x ∈ taken' ↔ ∃ a ∈ as, Relation.ReflTransGen (Child kids) a x := by
  have hnames : ∀ {y}, y ∈ taken' ↔ y ∈ names ts := by
    intro y
    rw [h.taken.mem_iff, List.append_nil]
  constructor
  · intro hx
    rcases h.reached x (hnames.1 hx) with ⟨t, ht, hreach⟩
    exact ⟨t.root, h.roots.subset (List.mem_map.2 ⟨t, ht, rfl⟩), hreach⟩
  · rintro ⟨a, ha, hreach⟩
    induction hreach with
    | refl => exact h.offered ha
    | tail _ hstep ih =>
      rcases List.mem_map.1 (hnames.1 ih) with ⟨f, hf, rfl⟩
      exact h.closed f hf hstep

/-- **A node becomes a root** where it is offered before anything it can be reached from. -/
theorem mem_roots_iff [DecidableEq α] (hkids : ∀ a ∈ universe_, kids a ⊆ universe_) {fuel : ℕ}
    (hfuel : universe_.length ≤ fuel) (has : as ⊆ universe_) {x : α} :
    x ∈ (growAll (grow kids fuel) as []).1.map root ↔
      ∃ before after, as = before ++ x :: after ∧
        ∀ a ∈ before, ¬ Relation.ReflTransGen (Child kids) a x := by
  induction as using List.reverseRecOn with
  | nil => simp [growAll]
  | append_singleton as b ih =>
    have has' : as ⊆ universe_ := fun y hy => has (List.mem_append_left _ hy)
    have hb : b ∈ universe_ := has (List.mem_append_right _ (List.mem_singleton.2 rfl))
    have hgrown := growAll_spec hkids fuel as [] List.nodup_nil (List.nil_subset _) has'
      (by simpa using hfuel)
    rw [growAll_append, List.map_append, List.mem_append, ih has']
    have hlast : x ∈ (growAll (grow kids fuel) [b] (growAll (grow kids fuel) as []).2).1.map root ↔
        x = b ∧ b ∉ (growAll (grow kids fuel) as []).2 := by
      by_cases htaken : b ∈ (growAll (grow kids fuel) as []).2
      · simp [growAll, grow_of_mem _ htaken, htaken]
      · -- a node that is left is grown, as there is fuel
        have hpos : 0 < universe_.length := List.length_pos_of_mem hb
        obtain ⟨fuel', rfl⟩ : ∃ k, fuel = k + 1 := ⟨fuel - 1, by omega⟩
        have hgrow : (grow kids (fuel' + 1) b
            (growAll (grow kids (fuel' + 1)) as []).2).1.map root = some b := by
          rw [grow_of_notMem fuel' htaken, Option.map_some, root]
        simp only [growAll, List.append_nil, List.mem_map, Option.mem_toList]
        constructor
        · rintro ⟨t, ht, rfl⟩
          rw [ht, Option.map_some, Option.some.injEq] at hgrow
          exact ⟨hgrow, htaken⟩
        · rintro ⟨rfl, -⟩
          exact Option.map_eq_some_iff.1 hgrow
    rw [hlast, mem_taken_iff hgrown]
    constructor
    · rintro (⟨before, after, rfl, hbefore⟩ | ⟨rfl, hfree⟩)
      · exact ⟨before, after ++ [b], by simp, hbefore⟩
      · refine ⟨as, [], rfl, ?_⟩
        intro a ha hreach
        exact hfree ⟨a, ha, hreach⟩
    · rintro ⟨before, after, heq, hbefore⟩
      rcases List.eq_nil_or_concat after with rfl | ⟨after', c, rfl⟩
      · right
        rcases List.append_inj' heq rfl with ⟨rfl, hone⟩
        rw [List.cons.injEq] at hone
        refine ⟨hone.1.symm, ?_⟩
        rintro ⟨a, ha, hreach⟩
        rw [hone.1] at hreach
        exact hbefore a ha hreach
      · left
        rw [List.concat_eq_append, ← List.cons_append, ← List.append_assoc] at heq
        rcases List.append_inj' heq rfl with ⟨rfl, -⟩
        exact ⟨before, after', rfl, hbefore⟩

end Roots

end Spec

end Forest
