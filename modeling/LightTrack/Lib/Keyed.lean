import Mathlib.Data.List.Nodup
import Mathlib.Tactic.Basic

/-! # Tables with a key

A table is the list of its rows with pairwise different keys; that the keys differ is a field, so
a table with a key twice cannot be built.  Rows are rewritten in place by a function that keeps
every key, appended under a fresh one, and deleted by what they are.

* `eq_of_key` : a key names at most one row,
* `mem_update` : where the rows of an updated table come from,
* `find_eq_some_iff` : looking a key up finds its row,
* `mem_upsert` : what is in a table into which a row was merged,
* `map_guarded`, `find_delete` : rewriting and deleting rows that are found by their key,
* `filter_filterMap_of_key` : what a function makes of one element is found by its key.
-/

/-- Rows with pairwise different keys. -/
structure Keyed {α : Type*} {κ : Type*} (key : α → κ) where
  rows : List α
  keys : (rows.map key).Nodup

namespace Keyed

variable {α : Type*} {κ : Type*} {key : α → κ}

/-- The table with no rows. -/
def empty : Keyed key := ⟨[], List.nodup_nil⟩

@[simp] theorem empty_rows : (empty : Keyed key).rows = [] := rfl

@[ext] theorem ext {t t' : Keyed key} (h : t.rows = t'.rows) : t = t' := by
  cases t
  cases t'
  simpa using h

/-- A key names at most one row. -/
theorem eq_of_key (t : Keyed key) {r r' : α} (hr : r ∈ t.rows) (hr' : r' ∈ t.rows)
    (h : key r = key r') : r = r' :=
  List.inj_on_of_nodup_map t.keys hr hr' h

/-- Rows that are picked, if any are, are the same when their keys are. -/
theorem eq_of_map_key (t : Keyed key) {o o' : Option α} (ho : ∀ r, o = some r → r ∈ t.rows)
    (ho' : ∀ r, o' = some r → r ∈ t.rows) (h : o.map key = o'.map key) : o = o' := by
  cases o with
  | none => exact (Option.map_eq_none_iff.1 h.symm).symm
  | some r =>
    rcases Option.map_eq_some_iff.1 h.symm with ⟨r', rfl, hkey⟩
    rw [t.eq_of_key (ho' r' rfl) (ho r rfl) hkey]

/-! ## Rewriting rows -/

/-- Rewrite rows in place. -/
def update (t : Keyed key) (f : α → α) (hkey : ∀ r, key (f r) = key r) : Keyed key where
  rows := t.rows.map f
  keys := by
    have hcomp : key ∘ f = key := funext hkey
    rw [List.map_map, hcomp]
    exact t.keys

theorem mem_update {t : Keyed key} {f : α → α} {hkey : ∀ r, key (f r) = key r} {r' : α} :
    r' ∈ (t.update f hkey).rows ↔ ∃ r ∈ t.rows, f r = r' :=
  List.mem_map

/-! ## Appending a row -/

/-- Append a row under a fresh key. -/
def append (t : Keyed key) (r : α) (hfresh : key r ∉ t.rows.map key) : Keyed key where
  rows := t.rows ++ [r]
  keys := by
    rw [List.map_append]
    refine List.nodup_append.2 ⟨t.keys, List.nodup_singleton _, ?_⟩
    intro a ha b hb hab
    have hb' : b = key r := by simpa using hb
    exact hfresh (hb' ▸ hab ▸ ha)

theorem mem_append {t : Keyed key} {r r' : α} {hfresh : key r ∉ t.rows.map key} :
    r' ∈ (t.append r hfresh).rows ↔ r' ∈ t.rows ∨ r' = r := by
  unfold append
  simp

/-! ## Looking a key up -/

variable [DecidableEq κ]

/-- The row with a key. -/
def find (t : Keyed key) (k : κ) : Option α := t.rows.find? fun r => decide (key r = k)

theorem find_eq_some_iff {t : Keyed key} {k : κ} {r : α} :
    t.find k = some r ↔ r ∈ t.rows ∧ key r = k := by
  constructor
  · intro h
    exact ⟨List.mem_of_find?_eq_some h, by simpa using List.find?_some h⟩
  · rintro ⟨hr, hk⟩
    have hsome : (t.find k).isSome := by
      unfold find
      rw [List.find?_isSome]
      exact ⟨r, hr, by simpa using hk⟩
    rcases Option.isSome_iff_exists.1 hsome with ⟨r', hr'⟩
    have hkey : key r' = k := by simpa using List.find?_some hr'
    rw [hr', t.eq_of_key (List.mem_of_find?_eq_some hr') hr (hkey.trans hk.symm)]

theorem find_eq_none_iff {t : Keyed key} {k : κ} :
    t.find k = none ↔ ∀ r ∈ t.rows, key r ≠ k := by
  unfold find
  rw [List.find?_eq_none]
  simp

theorem find_update {t : Keyed key} {f : α → α} {hkey : ∀ r, key (f r) = key r} (k : κ) :
    (t.update f hkey).find k = (t.find k).map f := by
  unfold find update
  rw [List.find?_map]
  congr 2
  funext r
  simp [hkey r]

/-- An update that leaves the rows of a key as they are. -/
theorem find_update_of_ne {t : Keyed key} {f : α → α} {hkey : ∀ r, key (f r) = key r} {k : κ}
    (h : ∀ r, key r = k → f r = r) : (t.update f hkey).find k = t.find k := by
  rw [find_update]
  cases hfind : t.find k with
  | none => rfl
  | some r => rw [Option.map_some, h r (find_eq_some_iff.1 hfind).2]

theorem find_append {t : Keyed key} {r : α} {hfresh : key r ∉ t.rows.map key} {k : κ}
    (h : key r ≠ k) :
    (t.append r hfresh).find k = t.find k := by
  unfold find append
  rw [List.find?_append]
  simp [h]

/-! ## Inserting or merging -/

/-- Merge a row into the one that has its key, or append it where none has. -/
def upsert (t : Keyed key) (r : α) (merge : α → α)
    (hkey : ∀ r', key r' = key r → key (merge r') = key r) : Keyed key :=
  if h : key r ∈ t.rows.map key then
    t.update (fun r' => if key r' = key r then merge r' else r') fun r' => by
      split_ifs with hr'
      · rw [hkey r' hr', hr']
      · rfl
  else t.append r h

/-- Where the rows of a table come from after a row is merged in. -/
theorem mem_upsert {t : Keyed key} {r r' : α} {merge : α → α}
    {hkey : ∀ r', key r' = key r → key (merge r') = key r} :
    r' ∈ (t.upsert r merge hkey).rows ↔ (r' ∈ t.rows ∧ key r' ≠ key r) ∨
      (∃ old ∈ t.rows, key old = key r ∧ merge old = r') ∨
      (∀ old ∈ t.rows, key old ≠ key r) ∧ r' = r := by
  unfold upsert
  split_ifs with h
  · obtain ⟨old, hold, hk⟩ := List.mem_map.1 h
    rw [mem_update]
    constructor
    · rintro ⟨x, hx, hr'⟩
      split_ifs at hr' with hxk
      · exact .inr (.inl ⟨x, hx, hxk, hr'⟩)
      · exact .inl ⟨hr' ▸ hx, hr' ▸ hxk⟩
    · rintro (⟨hr', hne⟩ | ⟨x, hx, hxk, hr'⟩ | ⟨hnone, -⟩)
      · exact ⟨r', hr', if_neg hne⟩
      · exact ⟨x, hx, (if_pos hxk).trans hr'⟩
      · exact absurd hk (hnone old hold)
  · have hnone : ∀ old ∈ t.rows, key old ≠ key r := by
      intro old hold hk
      exact h (List.mem_map.2 ⟨old, hold, hk⟩)
    rw [mem_append]
    constructor
    · rintro (hr' | hr')
      · exact .inl ⟨hr', hnone r' hr'⟩
      · exact .inr (.inr ⟨hnone, hr'⟩)
    · rintro (⟨hr', -⟩ | ⟨x, hx, hxk, -⟩ | ⟨-, hr'⟩)
      · exact .inl hr'
      · exact absurd hxk (hnone x hx)
      · exact .inr hr'

/-- Merging in a row that the table has already taken in changes nothing. -/
theorem upsert_eq_self {t : Keyed key} {r old : α} {merge : α → α}
    {hkey : ∀ r', key r' = key r → key (merge r') = key r} (hold : old ∈ t.rows)
    (hk : key old = key r) (hmerge : merge old = old) : t.upsert r merge hkey = t := by
  have hmem : key r ∈ t.rows.map key := List.mem_map.2 ⟨old, hold, hk⟩
  unfold upsert
  rw [dif_pos hmem]
  refine ext ?_
  conv_rhs => rw [← List.map_id t.rows]
  refine List.map_congr_left fun x hx => ?_
  split_ifs with hxk
  · rw [t.eq_of_key hx hold (hxk.trans hk.symm)]
    exact hmerge
  · rfl

/-- Some row meets a predicate of one key exactly when the row of the key does. -/
theorem any_of_key (t : Keyed key) {p : α → Bool} {k : κ} (hp : ∀ r, p r = true → key r = k) :
    t.rows.any p = (t.find k).any p := by
  rw [Bool.eq_iff_iff, List.any_eq_true, Option.any_eq_true]
  constructor
  · rintro ⟨r, hr, hpr⟩
    exact ⟨r, find_eq_some_iff.2 ⟨hr, hp r hpr⟩, hpr⟩
  · rintro ⟨r, hfind, hpr⟩
    exact ⟨r, (find_eq_some_iff.1 hfind).1, hpr⟩

/-- Rewriting the rows that meet a predicate of one key. -/
theorem map_guarded (t : Keyed key) {p : α → Bool} {k : κ} (hp : ∀ r, p r = true → key r = k)
    (f : α → α) : (t.rows.map fun r => if p r then f r else r) =
      if (t.find k).any p then t.rows.map fun r => if key r = k then f r else r else t.rows := by
  split_ifs with hany
  · rcases Option.any_eq_true .. |>.1 hany with ⟨r₀, hfind, hp₀⟩
    rcases find_eq_some_iff.1 hfind with ⟨hr₀, hk₀⟩
    refine List.map_congr_left fun r hr => ?_
    by_cases hk : key r = k
    · rw [t.eq_of_key hr hr₀ (hk.trans hk₀.symm), if_pos hp₀, if_pos hk₀]
    · rw [if_neg hk, if_neg fun hpr => hk (hp r hpr)]
  · rw [← t.any_of_key hp, List.any_eq_true] at hany
    conv_rhs => rw [← List.map_id t.rows]
    refine List.map_congr_left fun r hr => ?_
    exact if_neg fun hpr => hany ⟨r, hr, hpr⟩

/-- Delete the rows that a predicate picks. -/
def delete (t : Keyed key) (p : α → Bool) : Keyed key where
  rows := t.rows.filter fun r => !p r
  keys := t.keys.sublist (List.Sublist.map _ List.filter_sublist)

theorem find_delete {t : Keyed key} {p : α → Bool} {k : κ} (h : ∀ r, p r = true → key r ≠ k) :
    (t.delete p).find k = t.find k := by
  cases hfind : t.find k with
  | none =>
    rw [find_eq_none_iff] at hfind ⊢
    exact fun r hr => hfind r (List.mem_filter.1 hr).1
  | some r =>
    rw [find_eq_some_iff] at hfind ⊢
    refine ⟨List.mem_filter.2 ⟨hfind.1, ?_⟩, hfind.2⟩
    have hp : ¬ p r = true := fun hp => h r hp hfind.2
    simpa using hp

/-! ## Lists with a key -/

/-- What a function makes of one element is found by the element's key, when the results carry the
key of their source and no other element has the key. -/
theorem filter_filterMap_of_key {α β κ : Type*} [DecidableEq κ] (key : α → κ) (key' : β → κ)
    (g : α → Option β) {l : List α} (hg : ∀ a ∈ l, ∀ b, g a = some b → key' b = key a) {k : κ}
    (hone : l.Pairwise fun a b => key a = k → key b ≠ k) {a : α} (ha : a ∈ l) (hk : key a = k) :
    ((l.filterMap g).filter fun b => key' b = k) = (g a).toList := by
  have hnone : ∀ l' : List α, l' ⊆ l → (∀ b ∈ l', key b ≠ k) →
      ((l'.filterMap g).filter fun b => key' b = k) = [] := by
    intro l' hsub hkey
    rw [List.filter_eq_nil_iff]
    intro b hb
    rcases List.mem_filterMap.1 hb with ⟨a', ha', hga'⟩
    rw [decide_eq_true_eq, hg a' (hsub ha') b hga']
    exact hkey a' ha'
  rcases List.append_of_mem ha with ⟨l₁, l₂, rfl⟩
  rw [List.pairwise_append, List.pairwise_cons] at hone
  have hleft : ∀ b ∈ l₁, key b ≠ k :=
    fun b hb heq => hone.2.2 b hb a (List.mem_cons_self ..) heq hk
  have hright : ∀ b ∈ l₂, key b ≠ k := fun b hb => hone.2.1.1 b hb hk
  have hhit : ((g a).toList.filter fun b => key' b = k) = (g a).toList := by
    rw [List.filter_eq_self]
    intro b hb
    rw [decide_eq_true_eq, ← hk]
    exact hg a ha b (Option.mem_toList.1 hb)
  have hcons : (a :: l₂).filterMap g = (g a).toList ++ l₂.filterMap g := by
    cases h : g a with
    | none => simp [h]
    | some b => simp [h]
  rw [List.filterMap_append, hcons, List.filter_append, List.filter_append, hhit,
    hnone l₁ (List.subset_append_left ..) hleft,
    hnone l₂ (List.Subset.trans (List.subset_cons_self ..) (List.subset_append_right ..)) hright]
  simp

/-- The same, of elements that are numbered first. -/
theorem filter_filterMap_zipIdx {α β κ : Type*} [DecidableEq κ] (key : α → κ) (key' : β → κ)
    (g : α × ℕ → Option β) {l : List α}
    (hg : ∀ x ∈ l.zipIdx, ∀ b, g x = some b → key' b = key x.1) {a : α} (ha : a ∈ l)
    (hone : l.Pairwise fun b c => key b = key a → key c ≠ key a) :
    ∃ n, ((l.zipIdx.filterMap g).filter fun b => key' b = key a) = (g (a, n)).toList := by
  rcases List.mem_iff_getElem?.1 ha with ⟨n, hn⟩
  have hone' : l.zipIdx.Pairwise fun x y => key x.1 = key a → key y.1 ≠ key a := by
    rw [← List.zipIdx_map_fst 0 l, List.pairwise_map] at hone
    exact hone
  have hmem : (a, n) ∈ l.zipIdx := List.mk_mem_zipIdx_iff_getElem?.2 hn
  exact ⟨n, filter_filterMap_of_key (fun x => key x.1) key' g hg hone' hmem rfl⟩

end Keyed
