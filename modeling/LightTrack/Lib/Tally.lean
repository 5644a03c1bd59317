import LightTrack.Lib.Group
import LightTrack.Lib.OrdMap

/-! # Tallies

A tally is an ordered map from keys to sums, built by adding each element of a list to
the entry of its key; a cross tally has a tally at each key.

* `getD_tally`, `getD_crossTally` : an entry is the sum over the elements of its key,
* `mem_keys_tally`, `mem_keys_crossTally` : the keys are those of the elements,
* `mem_keySet` : a set of keys, in order, without repetitions.
-/

namespace OrdMap

variable {α κ κ' ν M : Type*} [LinearOrder κ] [LinearOrder κ']

theorem mem_keys_insert_iff {m : OrdMap κ ν} {k k' : κ} {v : ν} :
    k' ∈ (m.insert k v).keys ↔ k' = k ∨ k' ∈ m.keys := by
  rw [← get_isSome_iff, ← get_isSome_iff, get_insert]
  by_cases h : k' = k
  · rw [if_pos h]
    exact iff_of_true rfl (.inl h)
  · rw [if_neg h, or_iff_right h]

/-- `m.entry(k).or_insert(d)`, changed by `f`. -/
def adjust (m : OrdMap κ ν) (k : κ) (d : ν) (f : ν → ν) : OrdMap κ ν :=
  m.insert k (f ((m.get k).getD d))

theorem get_adjust (m : OrdMap κ ν) (k k' : κ) (d : ν) (f : ν → ν) :
    (m.adjust k d f).get k' = if k' = k then some (f ((m.get k).getD d)) else m.get k' :=
  get_insert ..

theorem mem_keys_foldl_adjust (key : α → κ) (d : ν) (f : α → ν → ν) (l : List α)
    (m : OrdMap κ ν) {k : κ} :
    k ∈ (l.foldl (fun m a => m.adjust (key a) d (f a)) m).keys ↔ k ∈ l.map key ∨ k ∈ m.keys := by
  induction l generalizing m with
  | nil => simp
  | cons a l ih =>
    rw [List.foldl_cons, ih, List.map_cons, List.mem_cons]
    unfold adjust
    rw [mem_keys_insert_iff]
    tauto

section Tally

variable [AddCommMonoid M]

/-- Add `val a` to the entry of `key a`, for every element. -/
def tally (key : α → κ) (val : α → M) (l : List α) : OrdMap κ M :=
  l.foldl (fun m a => m.adjust (key a) 0 fun v => v + val a) empty

theorem mem_keys_tally {key : α → κ} {val : α → M} {l : List α} {k : κ} :
    k ∈ (tally key val l).keys ↔ k ∈ l.map key := by
  unfold tally
  rw [mem_keys_foldl_adjust]
  exact or_iff_left List.not_mem_nil

/-- A sum over the elements that pass, as a sum of all. -/
theorem sum_filter_eq (p : α → Bool) (f : α → M) (l : List α) :
    ((l.filter p).map f).sum = (l.map fun a => if p a then f a else 0).sum := by
  induction l with
  | nil => rfl
  | cons a l ih =>
    rw [List.map_cons, List.sum_cons, ← ih]
    by_cases h : p a
    · rw [List.filter_cons_of_pos h, List.map_cons, List.sum_cons, if_pos h]
    · rw [List.filter_cons_of_neg h, if_neg h, zero_add]

theorem sum_map_filterMap {β : Type*} (g : α → Option β) (f : β → M)
    (l : List α) : ((l.filterMap g).map f).sum = (l.map fun a => (g a).elim 0 f).sum := by
  induction l with
  | nil => rfl
  | cons a l ih =>
    rw [List.map_cons, List.sum_cons, ← ih]
    cases h : g a with
    | none => rw [List.filterMap_cons_none h, Option.elim_none, zero_add]
    | some b => rw [List.filterMap_cons_some h, List.map_cons, List.sum_cons, Option.elim_some]

theorem sum_map_flatMap {β : Type*} (g : α → List β) (f : β → M)
    (l : List α) : ((l.flatMap g).map f).sum = (l.map fun a => ((g a).map f).sum).sum := by
  induction l with
  | nil => rfl
  | cons a l ih =>
    rw [List.flatMap_cons, List.map_append, List.sum_append, ih, List.map_cons, List.sum_cons]

theorem getD_tally (key : α → κ) (val : α → M) (l : List α) (k : κ) :
    ((tally key val l).get k).getD 0 = ((l.filter fun a => key a == k).map val).sum := by
  have hstep : ∀ (m : OrdMap κ M) (a : α),
      ((m.adjust (key a) 0 fun v => v + val a).get k).getD 0 =
        (m.get k).getD 0 + if key a == k then val a else 0 := by
    intro m a
    rw [get_adjust]
    by_cases h : k = key a
    · subst h
      simp
    · rw [if_neg h, if_neg (by simpa using fun heq => h heq.symm), add_zero]
  have hfold := Group.foldl_additive (f := fun m : OrdMap κ M => (m.get k).getD 0) hstep l empty
  rw [get_empty, Option.getD_none, zero_add, ← sum_filter_eq] at hfold
  exact hfold

/-- Of the entries of a map, one at most is at `k`. -/
theorem sum_filter_entries {ν : Type*} (m : OrdMap κ ν) (f : κ × ν → M) (k : κ) :
    ((m.entries.filter fun e => e.1 == k).map f).sum = (m.get k).elim 0 fun v => f (k, v) := by
  cases h : m.get k with
  | none =>
    have hnone : m.entries.filter (fun e => e.1 == k) = [] := by
      rw [List.filter_eq_nil_iff]
      intro e he hk
      have hsome : (m.get k).isSome = true := by
        rw [get_isSome_iff, ← eq_of_beq hk]
        exact List.mem_map_of_mem he
      rw [h] at hsome
      exact absurd hsome Bool.false_ne_true
    rw [hnone]
    rfl
  | some v =>
    have hmem : (k, v) ∈ m.entries := get_eq_some_iff.1 h
    have hone : m.entries.filter (fun e => e.1 == k) = [(k, v)] :=
      Group.filter_key (nodup_keys m) hmem
    rw [hone, List.map_singleton, List.sum_singleton]
    rfl

/-- Add `val a` to the entry of `key a` and `sub a`, for every element. -/
def crossTally (key : α → κ) (sub : α → κ') (val : α → M) (l : List α) : OrdMap κ (OrdMap κ' M) :=
  l.foldl (fun m a => m.adjust (key a) empty fun row => row.adjust (sub a) 0 fun v => v + val a)
    empty

theorem mem_keys_crossTally {key : α → κ} {sub : α → κ'} {val : α → M} {l : List α} {k : κ} :
    k ∈ (crossTally key sub val l).keys ↔ k ∈ l.map key := by
  unfold crossTally
  rw [mem_keys_foldl_adjust]
  exact or_iff_left List.not_mem_nil

/-- The entry of a cross tally, where a missing row has none. -/
def cell (m : OrdMap κ (OrdMap κ' M)) (k : κ) (k' : κ') : M :=
  ((m.get k).bind fun row => row.get k').getD 0

theorem cell_adjust (m : OrdMap κ (OrdMap κ' M)) (k₀ k : κ) (k₀' k' : κ') (x : M) :
    (m.adjust k₀ empty fun row => row.adjust k₀' 0 fun v => v + x).cell k k' =
      m.cell k k' + if k₀ == k && k₀' == k' then x else 0 := by
  unfold cell
  rw [get_adjust]
  by_cases h : k = k₀
  · subst h
    rw [if_pos rfl, Option.bind_some, get_adjust]
    by_cases h' : k' = k₀'
    · subst h'
      cases m.get k <;> simp
    · rw [if_neg h', if_neg (by simpa using fun heq => h' heq.symm), add_zero]
      cases m.get k <;> simp
  · rw [if_neg h, if_neg (by simpa using fun heq => absurd heq.symm h), add_zero]

theorem cell_crossTally (key : α → κ) (sub : α → κ') (val : α → M) (l : List α) (k : κ) (k' : κ') :
    (crossTally key sub val l).cell k k' =
      ((l.filter fun a => key a == k && sub a == k').map val).sum := by
  have hfold := Group.foldl_additive (f := fun m : OrdMap κ (OrdMap κ' M) => m.cell k k')
    (fun m a => cell_adjust m (key a) k (sub a) k' (val a)) l empty
  have hempty : (empty : OrdMap κ (OrdMap κ' M)).cell k k' = 0 := rfl
  rw [hempty, zero_add, ← sum_filter_eq fun a => key a == k && sub a == k'] at hfold
  exact hfold

/-- Keys whose entries are zero can be added to a sum. -/
theorem sum_extend {ks ks' : List κ} (hks : ks.Nodup) (hks' : ks'.Nodup) (hsub : ks ⊆ ks')
    {f : κ → M} (hzero : ∀ k ∈ ks', k ∉ ks → f k = 0) : (ks.map f).sum = (ks'.map f).sum := by
  have hperm : ks.Perm (ks'.filter fun k => decide (k ∈ ks)) := by
    rw [List.perm_ext_iff_of_nodup hks (hks'.filter _)]
    intro k
    rw [List.mem_filter, decide_eq_true_eq]
    exact ⟨fun h => ⟨hsub h, h⟩, And.right⟩
  rw [(hperm.map f).sum_eq, sum_filter_eq]
  congr 1
  apply List.map_congr_left
  intro k hk
  by_cases h : k ∈ ks
  · rw [if_pos (decide_eq_true h)]
  · rw [if_neg (by simpa using h), hzero k hk h]

end Tally

/-! ## Sets of keys -/

/-- The keys of a list, collected into an ordered set. -/
def keySet (l : List κ) : List κ := (l.foldl (fun s k => s.adjust k () id) empty).keys

@[simp] theorem mem_keySet {l : List κ} {k : κ} : k ∈ keySet l ↔ k ∈ l := by
  unfold keySet
  rw [mem_keys_foldl_adjust (fun k => k) () (fun _ => id), List.map_id']
  exact or_iff_left List.not_mem_nil

theorem nodup_keySet (l : List κ) : (keySet l).Nodup := nodup_keys _

end OrdMap
