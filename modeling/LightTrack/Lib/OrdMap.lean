import Mathlib.Algebra.BigOperators.Group.List.Basic
import Mathlib.Algebra.Group.Basic
import Mathlib.Order.Lattice
import Mathlib.Tactic.Abel

/-! # Ordered maps as sorted association lists

An ordered map is the list of its entries in strictly increasing key order; the
order is a field, so an unsorted map cannot be built.  Besides insertion there is
one more operation, `popWhile`: entries leave from the front while their key is
`old`, each one folded into an accumulator.

For an additive weight the two operations have exact accounts:

* `weight_insert` : a fresh key adds the weight of its entry,
* `weight_popWhile` : popping keeps exactly the entries that are not `old`,
* `popWhile_sub` : an accumulator from which each popped value is subtracted
  loses exactly the weight of the `old` entries.
-/

/-- A map with its entries in strictly increasing key order. -/
structure OrdMap (κ : Type*) (ν : Type*) [LinearOrder κ] where
  entries : List (κ × ν)
  sorted : entries.Pairwise (fun a b => a.1 < b.1)

namespace OrdMap

variable {κ : Type*} {ν : Type*} {β : Type*} {M : Type*} [LinearOrder κ]

/-- The map with no entries. -/
def empty : OrdMap κ ν := ⟨[], List.Pairwise.nil⟩

instance : Inhabited (OrdMap κ ν) := ⟨empty⟩

@[simp] theorem empty_entries : (empty : OrdMap κ ν).entries = [] := rfl

@[ext] theorem ext {m m' : OrdMap κ ν} (h : m.entries = m'.entries) : m = m' := by
  cases m
  cases m'
  simpa using h

/-- The keys of the map, in order. -/
def keys (m : OrdMap κ ν) : List κ := m.entries.map Prod.fst

/-! ## Insertion -/

/-- Insertion into a sorted entry list; a key that is there is overwritten. -/
def insertList (k : κ) (v : ν) : List (κ × ν) → List (κ × ν)
  | [] => [(k, v)]
  | e :: l =>
    if k < e.1 then (k, v) :: e :: l
    else if k = e.1 then (k, v) :: l
    else e :: insertList k v l

theorem mem_insertList {k : κ} {v : ν} {l : List (κ × ν)} {e : κ × ν}
    (h : e ∈ insertList k v l) : e = (k, v) ∨ e ∈ l := by
  induction l with
  | nil => simpa [insertList] using h
  | cons a l ih =>
    unfold insertList at h
    split_ifs at h with hlt heq
    · simpa using h
    · rcases List.mem_cons.1 h with rfl | h'
      · exact .inl rfl
      · exact .inr (List.mem_cons_of_mem _ h')
    · rcases List.mem_cons.1 h with rfl | h'
      · exact .inr (List.mem_cons_self ..)
      · exact (ih h').imp_right (List.mem_cons_of_mem _)

theorem sorted_insertList (k : κ) (v : ν) {l : List (κ × ν)}
    (h : l.Pairwise (fun a b => a.1 < b.1)) :
    (insertList k v l).Pairwise (fun a b => a.1 < b.1) := by
  induction l with
  | nil => exact List.pairwise_singleton _ _
  | cons a l ih =>
    obtain ⟨ha, hl⟩ := List.pairwise_cons.1 h
    unfold insertList
    split_ifs with hlt heq
    · refine List.pairwise_cons.2 ⟨fun b hb => ?_, h⟩
      rcases List.mem_cons.1 hb with rfl | hb
      · exact hlt
      · exact lt_trans hlt (ha b hb)
    · exact List.pairwise_cons.2 ⟨fun b hb => heq ▸ ha b hb, hl⟩
    · refine List.pairwise_cons.2 ⟨fun b hb => ?_, ih hl⟩
      rcases mem_insertList hb with rfl | hb
      · exact lt_of_le_of_ne (not_lt.1 hlt) (fun h => heq h.symm)
      · exact ha b hb

/-- Insert an entry. -/
def insert (m : OrdMap κ ν) (k : κ) (v : ν) : OrdMap κ ν :=
  ⟨insertList k v m.entries, sorted_insertList k v m.sorted⟩

theorem mem_keys_insert {m : OrdMap κ ν} {k k' : κ} {v : ν} (h : k' ∈ (m.insert k v).keys) :
    k' = k ∨ k' ∈ m.keys := by
  obtain ⟨e, he, rfl⟩ := List.mem_map.1 h
  rcases mem_insertList he with rfl | he
  · exact .inl rfl
  · exact .inr (List.mem_map_of_mem he)

/-- The value of a key. -/
def get (m : OrdMap κ ν) (k : κ) : Option ν :=
  (m.entries.find? fun e => decide (e.1 = k)).map Prod.snd

@[simp] theorem get_empty (k : κ) : (empty : OrdMap κ ν).get k = none := rfl

theorem get_insert (m : OrdMap κ ν) (k k' : κ) (v : ν) :
    (m.insert k v).get k' = if k' = k then some v else m.get k' := by
  unfold get insert
  simp only
  induction m.entries with
  | nil =>
    by_cases hk : k' = k
    · simp [insertList, hk]
    · simp [insertList, hk, Ne.symm hk]
  | cons e l ih =>
    unfold insertList
    by_cases hk : k' = k
    · subst hk
      rw [if_pos rfl] at ih ⊢
      split_ifs with hlt heq
      · simp
      · simp
      · rw [List.find?_cons_of_neg (by simpa using Ne.symm heq)]
        exact ih
    · rw [if_neg hk] at ih ⊢
      split_ifs with hlt heq
      · rw [List.find?_cons_of_neg (by simpa using Ne.symm hk)]
      · subst heq
        rw [List.find?_cons_of_neg (by simpa using Ne.symm hk),
          List.find?_cons_of_neg (by simpa using Ne.symm hk)]
      · by_cases he : e.1 = k'
        · rw [List.find?_cons_of_pos (by simpa using he), List.find?_cons_of_pos (by simpa using he)]
        · rw [List.find?_cons_of_neg (by simpa using he), List.find?_cons_of_neg (by simpa using he)]
          exact ih

/-! ## A map and its entries -/

theorem perm_insertList {k : κ} (v : ν) {l : List (κ × ν)} (hk : k ∉ l.map Prod.fst) :
    (insertList k v l).Perm ((k, v) :: l) := by
  induction l with
  | nil => exact List.Perm.refl _
  | cons e l ih =>
    have hne : k ≠ e.1 := fun heq => hk (heq ▸ List.mem_cons_self ..)
    have hl : k ∉ l.map Prod.fst := fun hmem => hk (List.mem_cons_of_mem _ hmem)
    unfold insertList
    split_ifs with hlt
    · exact List.Perm.refl _
    · exact ((ih hl).cons e).trans (List.Perm.swap (k, v) e l)

theorem nodup_keys (m : OrdMap κ ν) : m.keys.Nodup := by
  unfold keys List.Nodup
  rw [List.pairwise_map]
  exact m.sorted.imp fun h => ne_of_lt h

theorem sorted_keys (m : OrdMap κ ν) : m.keys.Pairwise (· ≤ ·) := by
  unfold keys
  rw [List.pairwise_map]
  exact m.sorted.imp fun h => le_of_lt h

theorem get_eq_some_iff {m : OrdMap κ ν} {k : κ} {v : ν} :
    m.get k = some v ↔ (k, v) ∈ m.entries := by
  unfold get
  constructor
  · intro h
    rcases Option.map_eq_some_iff.1 h with ⟨e, he, rfl⟩
    have hk := List.find?_some he
    rw [decide_eq_true_iff] at hk
    rw [← hk]
    exact List.mem_of_find?_eq_some he
  · intro h
    have hsorted := m.sorted
    generalize m.entries = l at h hsorted ⊢
    induction l with
    | nil => exact absurd h List.not_mem_nil
    | cons e l ih =>
      rcases List.pairwise_cons.1 hsorted with ⟨he, hl⟩
      rcases List.mem_cons.1 h with rfl | hmem
      · rw [List.find?_cons_of_pos (by simp), Option.map_some]
      · have hne : e.1 ≠ k := ne_of_lt (he _ hmem)
        rw [List.find?_cons_of_neg (by simpa using hne)]
        exact ih hmem hl

theorem get_isSome_iff {m : OrdMap κ ν} {k : κ} : (m.get k).isSome = true ↔ k ∈ m.keys := by
  rw [Option.isSome_iff_exists]
  constructor
  · intro h
    rcases h with ⟨v, hv⟩
    exact List.mem_map_of_mem (get_eq_some_iff.1 hv)
  · intro h
    rcases List.mem_map.1 h with ⟨e, he, rfl⟩
    exact ⟨e.2, get_eq_some_iff.2 he⟩

/-- A map is its entries, in whatever order they are given. -/
theorem eq_of_perm {m m' : OrdMap κ ν} (h : m.entries.Perm m'.entries) : m = m' :=
  ext (h.eq_of_pairwise (fun _ _ _ _ hab hba => absurd hab (lt_asymm hba)) m.sorted m'.sorted)

/-! ## Popping from the front -/

/-- Pop entries while their key is `old`, folding each value with `f`. -/
def popList (old : κ → Bool) (f : β → ν → β) : β → List (κ × ν) → β × List (κ × ν)
  | b, [] => (b, [])
  | b, e :: l => if old e.1 then popList old f (f b e.2) l else (b, e :: l)

omit [LinearOrder κ] in
theorem popList_suffix (old : κ → Bool) (f : β → ν → β) (b : β) (l : List (κ × ν)) :
    (popList old f b l).2 <:+ l := by
  induction l generalizing b with
  | nil => exact List.suffix_refl _
  | cons e l ih =>
    unfold popList
    split_ifs
    · exact (ih _).trans (List.suffix_cons e l)
    · exact List.suffix_refl _

/-- Pop the entries at the front whose key is `old`. -/
def popWhile (old : κ → Bool) (f : β → ν → β) (b : β) (m : OrdMap κ ν) : β × OrdMap κ ν :=
  ((popList old f b m.entries).1,
    ⟨(popList old f b m.entries).2, m.sorted.sublist (popList_suffix ..).sublist⟩)

theorem mem_keys_popWhile {old : κ → Bool} {f : β → ν → β} {b : β} {m : OrdMap κ ν} {k : κ}
    (h : k ∈ (popWhile old f b m).2.keys) : k ∈ m.keys := by
  obtain ⟨e, he, rfl⟩ := List.mem_map.1 h
  exact List.mem_map_of_mem ((popList_suffix ..).subset he)

/-! ## Weights -/

section Weight

variable [AddCommGroup M]

/-- Total weight of the entries. -/
def weight (g : κ × ν → M) (m : OrdMap κ ν) : M := (m.entries.map g).sum

@[simp] theorem weight_empty (g : κ × ν → M) : weight g empty = 0 := rfl

theorem weight_congr {g g' : κ × ν → M} {m : OrdMap κ ν}
    (h : ∀ e ∈ m.entries, g e = g' e) : weight g m = weight g' m := by
  unfold weight
  rw [List.map_congr_left h]

theorem weight_add (g g' : κ × ν → M) (m : OrdMap κ ν) :
    weight (fun e => g e + g' e) m = weight g m + weight g' m := by
  unfold weight
  rw [List.sum_map_add]

theorem weight_insert {g : κ × ν → M} {m : OrdMap κ ν} {k : κ} {v : ν} (hk : k ∉ m.keys) :
    weight g (m.insert k v) = weight g m + g (k, v) := by
  suffices h : ∀ l : List (κ × ν), k ∉ l.map Prod.fst →
      ((insertList k v l).map g).sum = (l.map g).sum + g (k, v) from h m.entries hk
  intro l hl
  induction l with
  | nil => simp [insertList]
  | cons e l ih =>
    have hne : k ≠ e.1 := fun h => hl (by simp [h])
    have hl' : k ∉ l.map Prod.fst := fun h => hl (by simpa using Or.inr (by simpa using h))
    unfold insertList
    split_ifs with hlt
    · simp only [List.map_cons, List.sum_cons]
      abel
    · simp only [List.map_cons, List.sum_cons, ih hl']
      abel

variable {old : κ → Bool}

/-- When `old` is closed downwards, popping keeps exactly the entries that are not `old`. -/
theorem popList_eq_filter (hold : ∀ a b, a < b → old b = true → old a = true)
    (f : β → ν → β) (b : β) {l : List (κ × ν)} (hl : l.Pairwise (fun a b => a.1 < b.1)) :
    (popList old f b l).2 = l.filter (fun e => !old e.1) := by
  induction l generalizing b with
  | nil => rfl
  | cons e l ih =>
    obtain ⟨he, hl⟩ := List.pairwise_cons.1 hl
    unfold popList
    split_ifs with ho
    · simp [ih _ hl, ho]
    · -- nothing behind a young entry is old
      have hyoung : ∀ a ∈ l, (!old a.1) = true := by
        intro a ha
        by_contra hcon
        exact ho (hold _ _ (he a ha) (by simpa using hcon))
      rw [List.filter_cons_of_pos (by simpa using ho), List.filter_eq_self.2 hyoung]

theorem weight_popWhile (hold : ∀ a b, a < b → old b = true → old a = true)
    (f : β → ν → β) (b : β) (g : κ × ν → M) (m : OrdMap κ ν) :
    weight g (popWhile old f b m).2 = weight (fun e => if old e.1 then 0 else g e) m := by
  have h := popList_eq_filter hold f b m.sorted
  simp only [weight, popWhile, h]
  induction m.entries with
  | nil => rfl
  | cons e l ih =>
    by_cases ho : old e.1 <;> simp_all

/-- Subtracting every popped value takes away the weight of the `old` entries. -/
theorem popWhile_sub (hold : ∀ a b, a < b → old b = true → old a = true)
    (w : ν → M) (t : M) (m : OrdMap κ ν) :
    (popWhile old (fun t v => t - w v) t m).1
      = t - weight (fun e => if old e.1 then w e.2 else 0) m := by
  suffices h : ∀ (l : List (κ × ν)) (t : M), l.Pairwise (fun a b => a.1 < b.1) →
      (popList old (fun t v => t - w v) t l).1
        = t - (l.map fun e => if old e.1 then w e.2 else 0).sum from h m.entries t m.sorted
  intro l
  induction l with
  | nil => intro t _; simp [popList]
  | cons e l ih =>
    intro t hl
    obtain ⟨he, hl⟩ := List.pairwise_cons.1 hl
    unfold popList
    split_ifs with ho
    · rw [ih _ hl]
      simp only [List.map_cons, List.sum_cons, ho, if_true]
      abel
    · have hyoung : ∀ a ∈ l, (if old a.1 then w a.2 else 0) = (0 : M) := by
        intro a ha
        exact if_neg (fun h => ho (hold _ _ (he a ha) h))
      have hzero : (l.map fun e => if old e.1 then w e.2 else 0).sum = 0 :=
        List.sum_eq_zero fun x hx => by
          obtain ⟨a, ha, rfl⟩ := List.mem_map.1 hx
          exact hyoung a ha
      simp [ho, hzero]

end Weight

end OrdMap
