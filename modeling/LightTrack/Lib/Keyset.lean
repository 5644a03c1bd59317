import LightTrack.Lib.Traverse
import Mathlib.Data.List.Sort
import Mathlib.Order.Lattice

/-! # Keyset pagination

A listing in descending order of a key is handed out in pages.  A page starts below a cursor, reads
one row more than it returns, and names the key of its last row when there is a further one.

* `filter_below` : what is below the last row of a page is the rest of the listing,
* `Walk` : following the cursors of a pager until there is none,
* `walk_iff` : a walk over such pages yields every row once, in order, exactly when every row can
  be read.
-/

namespace Keyset

section Order

variable {α κ : Type*} [LinearOrder κ] {key : α → κ}

/-- The rows in descending order of their keys. -/
def newestFirst (key : α → κ) (rows : List α) : List α :=
  rows.mergeSort fun a b => decide (key b ≤ key a)

theorem newestFirst_perm (rows : List α) : (newestFirst key rows).Perm rows :=
  List.mergeSort_perm _ _

/-- Strictly descending keys. -/
def Descending (key : α → κ) (rows : List α) : Prop := rows.Pairwise fun a b => key b < key a

theorem newestFirst_pairwise (rows : List α) :
    (newestFirst key rows).Pairwise fun a b => key b ≤ key a := by
  unfold newestFirst
  refine (List.pairwise_mergeSort ?_ ?_ _).imp ?_
  · intro a b c hab hbc
    simp only [decide_eq_true_eq] at hab hbc ⊢
    exact hbc.trans hab
  · intro a b
    simp only [Bool.or_eq_true, decide_eq_true_eq]
    exact (le_total (key a) (key b)).symm
  · intro a b h
    simpa using h

/-- Rows with different keys are in strictly descending order. -/
theorem newestFirst_descending {rows : List α} (hkeys : (rows.map key).Nodup) :
    Descending key (newestFirst key rows) := by
  have hnodup : ((newestFirst key rows).map key).Nodup :=
    ((newestFirst_perm rows).map key).nodup_iff.2 hkeys
  have hne : (newestFirst key rows).Pairwise fun a b => key a ≠ key b := List.pairwise_map.1 hnodup
  exact (newestFirst_pairwise rows).imp₂ (fun a b hle hne => lt_of_le_of_ne hle hne.symm) hne

theorem Descending.eq_of_perm {rows rows' : List α} (h : Descending key rows)
    (h' : Descending key rows') (hperm : rows.Perm rows') : rows = rows' :=
  hperm.eq_of_pairwise (fun _ _ _ _ hab hba => absurd hab (lt_asymm hba)) h h'

/-- Sorting what passes a filter is filtering what was sorted. -/
theorem newestFirst_filter {rows : List α} (hkeys : (rows.map key).Nodup) (p : α → Bool) :
    newestFirst key (rows.filter p) = (newestFirst key rows).filter p := by
  have hkeys' : ((rows.filter p).map key).Nodup :=
    hkeys.sublist ((List.filter_sublist).map key)
  refine (newestFirst_descending hkeys').eq_of_perm
    ((newestFirst_descending hkeys).sublist List.filter_sublist) ?_
  exact (newestFirst_perm _).trans ((newestFirst_perm rows).filter p).symm

/-- Sorting rows that were renamed is renaming what was sorted. -/
theorem newestFirst_map {α' : Type*} (f : α' → α) (rows : List α') :
    newestFirst key (rows.map f) = (newestFirst (fun a => key (f a)) rows).map f := by
  symm
  apply List.map_mergeSort
  intro a _ b _
  rfl

/-- In a descending listing, what is below the last row of a page is what comes behind it. -/
theorem filter_below {pre post : List α} {a : α} (h : Descending key (pre ++ post))
    (hlast : pre.getLast? = some a) :
    (pre ++ post).filter (fun b => decide (key b < key a)) = post := by
  rcases List.getLast?_eq_some_iff.1 hlast with ⟨pre', rfl⟩
  rcases List.pairwise_append.1 h with ⟨hpre, -, hcross⟩
  have hno : (pre' ++ [a]).filter (fun b => decide (key b < key a)) = [] := by
    refine List.filter_eq_nil_iff.2 ?_
    intro b hb
    rw [decide_eq_true_eq, not_lt]
    rcases List.mem_append.1 hb with hb | hb
    · exact ((List.pairwise_append.1 hpre).2.2 b hb a (List.mem_singleton_self _)).le
    · rw [List.mem_singleton.1 hb]
  have hyes : post.filter (fun b => decide (key b < key a)) = post := by
    refine List.filter_eq_self.2 ?_
    intro b hb
    rw [decide_eq_true_eq]
    exact hcross a (List.mem_append_right _ (List.mem_singleton_self _)) b hb
  rw [List.filter_append, hno, hyes, List.nil_append]

end Order

/-! ## Walks -/

section Walks

variable {α β γ ε : Type*}

/-- Following the cursors of a pager until it names none, and what the pages yield. -/
inductive Walk (next : Option γ → Except ε (List β × Option γ)) : Option γ → List β → Prop
  | last {c : Option γ} {xs : List β} : next c = .ok (xs, none) → Walk next c xs
  | more {c : Option γ} {c' : γ} {xs ys : List β} :
      next c = .ok (xs, some c') → Walk next (some c') ys → Walk next c (xs ++ ys)

/-- One page of what is left: `limit` rows, and a cursor if there is a further one. -/
def takePage (limit : ℕ) (read : α → Except ε β) (cursorOf : β → γ) (rest : List α) :
    Except ε (List β × Option γ) :=
  ((rest.take (limit + 1)).mapM read).map fun bs =>
    if limit < bs.length then (bs.take limit, (bs.take limit).getLast?.map cursorOf) else (bs, none)

/-- The cursor behind `pre`: none before the first row, else that of the last row read. -/
def CursorAt (read : α → Except ε β) (cursorOf : β → γ) (pre : List α) (c : Option γ) : Prop :=
  pre = [] ∧ c = none ∨ ∃ a b, pre.getLast? = some a ∧ read a = .ok b ∧ c = some (cursorOf b)

variable {limit : ℕ} {read : α → Except ε β} {cursorOf : β → γ} {listing : List α}
  {next : Option γ → Except ε (List β × Option γ)}

/-- The last page: everything that is left, and no cursor. -/
theorem takePage_last {rest : List α} (hlen : rest.length ≤ limit) :
    takePage limit read cursorOf rest = (rest.mapM read).map fun bs => (bs, none) := by
  unfold takePage
  rw [List.take_of_length_le (by omega)]
  cases hread : rest.mapM read with
  | error e => rfl
  | ok bs =>
    have hbs := Traverse.length_of_mapM hread
    simp only [Except.map, if_neg (show ¬ limit < bs.length by omega)]

/-- A page that leaves something reads the first row of it too. -/
theorem takePage_more {q r : List α} {a : α} (hlen : q.length = limit) {bs : List β} {b : β}
    (hq : q.mapM read = .ok bs) (ha : read a = .ok b) :
    takePage limit read cursorOf (q ++ a :: r) = .ok (bs, bs.getLast?.map cursorOf) := by
  have htake : (q ++ a :: r).take (limit + 1) = q ++ [a] := by
    rw [← hlen, List.take_length_add_append, List.take_succ_cons, List.take_zero]
  have hread : (q ++ [a]).mapM read = .ok (bs ++ [b]) :=
    Traverse.mapM_append_iff.2
      ⟨bs, [b], hq, by simp [ha, bind, Except.bind, pure, Except.pure], rfl⟩
  have hbs := Traverse.length_of_mapM hq
  unfold takePage
  rw [htake, hread]
  simp only [Except.map, List.length_append, List.length_singleton]
  rw [if_pos (by omega), List.take_left' (by omega)]

theorem takePage_error {q r : List α} {a : α} (hlen : q.length = limit) {page : List β × Option γ}
    (h : takePage limit read cursorOf (q ++ a :: r) = .ok page) :
    ∃ bs b, q.mapM read = .ok bs ∧ read a = .ok b := by
  have htake : (q ++ a :: r).take (limit + 1) = q ++ [a] := by
    rw [← hlen, List.take_length_add_append, List.take_succ_cons, List.take_zero]
  unfold takePage at h
  rw [htake] at h
  cases hread : (q ++ [a]).mapM read with
  | error e =>
    rw [hread] at h
    cases h
  | ok bs =>
    rcases Traverse.mapM_append_iff.1 hread with ⟨bs₁, bs₂, hq, ha, -⟩
    rcases (Traverse.mapM_mem ha).2 a (List.mem_singleton_self _) with ⟨b, -, hb⟩
    exact ⟨bs₁, b, hq, hb⟩

/-- A walk starts with a page. -/
theorem Walk.exists_page {c : Option γ} {xs : List β} (h : Walk next c xs) :
    ∃ page, next c = .ok page := by
  cases h with
  | last h => exact ⟨_, h⟩
  | more h _ => exact ⟨_, h⟩

/-- **A walk over pages of a listing** yields every row once, in order, exactly when every row can
be read; and no walk ends otherwise. -/
theorem walk_iff (hlimit : 0 < limit)
    (hnext : ∀ pre rest, listing = pre ++ rest → ∀ c, CursorAt read cursorOf pre c →
      ∀ page, next c = .ok page ↔ takePage limit read cursorOf rest = .ok page) {xs : List β} :
    Walk next none xs ↔ listing.mapM read = .ok xs := by
  suffices h : ∀ n pre rest, rest.length = n → listing = pre ++ rest → ∀ c,
      CursorAt read cursorOf pre c → ∀ xs, Walk next c xs ↔ rest.mapM read = .ok xs from
    h listing.length [] listing rfl rfl none (.inl ⟨rfl, rfl⟩) xs
  intro n
  -- the rest gets shorter from page to page
  induction n using Nat.strong_induction_on with
  | _ n ih =>
    intro pre rest hn hlisting c hc xs
    have hpage := hnext pre rest hlisting c hc
    by_cases hlen : rest.length ≤ limit
    · simp only [takePage_last hlen] at hpage
      constructor
      · intro hwalk
        cases hwalk with
        | last h =>
          rw [hpage] at h
          cases hread : rest.mapM read with
          | error e => simp [hread, Except.map] at h
          | ok bs =>
            simp only [hread, Except.map, Except.ok.injEq, Prod.mk.injEq, and_true] at h
            rw [h]
        | more h _ =>
          rw [hpage] at h
          cases hread : rest.mapM read <;> simp [hread, Except.map] at h
      · intro hread
        refine .last ?_
        rw [hpage, hread]
        rfl
    · -- a page, a first row behind it, and the rest
      obtain ⟨q, a, r, hrest, hq⟩ : ∃ q a r, rest = q ++ a :: r ∧ q.length = limit := by
        cases hdrop : rest.drop limit with
        | nil =>
          have hle := List.drop_eq_nil_iff.1 hdrop
          omega
        | cons a r =>
          refine ⟨rest.take limit, a, r, ?_, List.length_take_of_le (by omega)⟩
          rw [← hdrop, List.take_append_drop]
      rw [hrest] at hlisting hn ⊢
      rw [hrest] at hpage
      have hlisting' : listing = (pre ++ q) ++ a :: r := by rw [hlisting, List.append_assoc]
      have hshort : (a :: r).length < n := by
        rw [List.length_append] at hn
        omega
      -- the cursor of the page stands behind its rows
      have hcursor : ∀ bs, q.mapM read = .ok bs → ∃ c', bs.getLast?.map cursorOf = some c' ∧
          CursorAt read cursorOf (pre ++ q) (some c') := by
        intro bs hbs
        obtain ⟨q', a', rfl⟩ : ∃ q' a', q = q' ++ [a'] := by
          rcases List.eq_nil_or_concat q with rfl | ⟨q', a', rfl⟩
          · simp at hq
            omega
          · exact ⟨q', a', List.concat_eq_append⟩
        rcases Traverse.mapM_append_iff.1 hbs with ⟨bs₁, bs₂, -, hlast, rfl⟩
        rcases List.length_eq_one_iff.1 (Traverse.length_of_mapM hlast) with ⟨b, rfl⟩
        rcases (Traverse.mapM_mem hlast).1 b (List.mem_singleton_self _) with ⟨a'', ha'', hb⟩
        rw [List.mem_singleton.1 ha''] at hb
        refine ⟨cursorOf b, by simp, .inr ⟨a', b, ?_, hb, rfl⟩⟩
        rw [← List.append_assoc, List.getLast?_concat]
      constructor
      · intro hwalk
        cases hwalk with
        | last h =>
          rw [hpage] at h
          rcases takePage_error hq h with ⟨bs, b, hbs, hb⟩
          rw [takePage_more hq hbs hb] at h
          rcases hcursor bs hbs with ⟨c', hc', -⟩
          rw [hc'] at h
          cases h
        | @more _ c' xs ys h hwalk =>
          rw [hpage] at h
          rcases takePage_error hq h with ⟨bs, b, hbs, hb⟩
          rw [takePage_more hq hbs hb] at h
          rcases hcursor bs hbs with ⟨c'', hc'', hat⟩
          rw [hc''] at h
          simp only [Except.ok.injEq, Prod.mk.injEq, Option.some.injEq] at h
          rcases h with ⟨rfl, rfl⟩
          have hys := (ih _ hshort (pre ++ q) (a :: r) rfl hlisting' _ hat ys).1 hwalk
          exact Traverse.mapM_append_iff.2 ⟨bs, ys, hbs, hys, rfl⟩
      · intro hread
        rcases Traverse.mapM_append_iff.1 hread with ⟨bs, ys, hbs, hys, rfl⟩
        rcases (Traverse.mapM_mem hys).2 a (List.mem_cons_self ..) with ⟨b, -, hb⟩
        rcases hcursor bs hbs with ⟨c', hc', hat⟩
        have hmore : next c = .ok (bs, some c') := by
          rw [hpage, takePage_more hq hbs hb, hc']
        exact .more hmore ((ih _ hshort (pre ++ q) (a :: r) rfl hlisting' _ hat ys).2 hys)

end Walks

end Keyset
