import Mathlib.Data.List.Infix
import Mathlib.Tactic.Basic

/-! # Replacing a text by another

A text is read from the left; every occurrence of `p` that is met gives way to `r`, and the reading
goes on behind it.

* `replaced_replace` : what the reading leaves, occurrence by occurrence,
* `Barrier r q` : no occurrence of `q` touches an `r`, wherever it stands,
* `Replaced.infix_of` : where `r` is a barrier to `q`, an occurrence of `q` that is left was there,
* `Replaced.clean` : where `r` is a barrier to `p`, no occurrence of `p` is left.
-/

namespace Substitute

variable {α : Type*}

/-! ## Barriers -/

/-- No occurrence of `q` touches an `r`. -/
def Barrier (r q : List α) : Prop := ∀ x y, q <:+: x ++ r ++ y → q <:+: x ∨ q <:+: y

section Barriers

variable {a b m q r u v x y : List α} {c : α}

/-- A symbol that `q` does not have. -/
theorem barrier_singleton (hc : c ∉ q) : Barrier [c] q := by
  rintro x y ⟨s, t, h⟩
  rw [List.append_assoc x, List.singleton_append] at h
  rcases List.append_eq_append_iff.1 h with ⟨l, hx, -⟩ | ⟨l, hsq, hy⟩
  · exact .inl ⟨s, l, hx.symm⟩
  · cases l with
    | nil => exact .inl ⟨s, [], by rw [hsq, List.append_nil, List.append_nil]⟩
    | cons d l =>
      rcases List.cons_eq_cons.1 hy with ⟨rfl, rfl⟩
      rcases List.append_eq_append_iff.1 hsq with ⟨k, -, hq⟩ | ⟨k, -, hl⟩
      · exact absurd (hq ▸ List.mem_append_right _ (List.mem_cons_self ..)) hc
      · cases k with
        | nil =>
          rw [List.nil_append] at hl
          exact absurd (hl ▸ List.mem_cons_self ..) hc
        | cons e k =>
          rcases List.cons_eq_cons.1 hl with ⟨-, rfl⟩
          exact .inr ⟨k, t, rfl⟩

/-- Two barriers around what `q` does not fit into. -/
theorem Barrier.around (ha : Barrier a q) (hb : Barrier b q) (hm : ¬ q <:+: m) :
    Barrier (a ++ m ++ b) q := by
  intro x y h
  have hsplit : x ++ (a ++ m ++ b) ++ y = x ++ a ++ (m ++ b ++ y) := by
    simp only [List.append_assoc]
  rw [hsplit] at h
  rcases ha _ _ h with hx | h
  · exact .inl hx
  · exact .inr ((hb _ _ h).resolve_left hm)

/-- What does not end in `u` occurs before it. -/
theorem infix_of_last (hq : q ≠ []) (hlast : q.getLast hq ∉ u) (h : q <:+: x ++ u) :
    q <:+: x := by
  rcases h with ⟨s, t, h⟩
  rcases List.append_eq_append_iff.1 h with ⟨l, hx, -⟩ | ⟨l, hsq, hu⟩
  · exact ⟨s, l, hx.symm⟩
  · cases l with
    | nil => exact ⟨s, [], by rw [hsq, List.append_nil, List.append_nil]⟩
    | cons d l =>
      -- the last symbol of `q` would stand in `u`
      have hend : q.getLast hq = (d :: l).getLast (List.cons_ne_nil d l) := by
        rw [← List.getLast_append_of_ne_nil (List.append_ne_nil_of_right_ne_nil s hq) hq]
        simp only [hsq]
        exact List.getLast_append_of_ne_nil _ (List.cons_ne_nil d l)
      have hmem : q.getLast hq ∈ u := by
        rw [hend, hu]
        exact List.mem_append_left _ (List.getLast_mem _)
      exact absurd hmem hlast

/-- What does not begin in `v` occurs behind it. -/
theorem infix_of_head (hq : q ≠ []) (hhead : q.head hq ∉ v) (h : q <:+: v ++ y) : q <:+: y := by
  have hne : q.reverse ≠ [] := List.reverse_ne_nil_iff.2 hq
  have hlast : q.reverse.getLast hne ∉ v.reverse := by
    rw [List.getLast_reverse, List.mem_reverse]
    exact hhead
  have hrev := List.reverse_infix.2 h
  rw [List.reverse_append] at hrev
  exact List.reverse_infix.1 (infix_of_last hne hlast hrev)

/-- A symbol that `q` does not have, behind none it ends in and before none it begins with. -/
theorem barrier_around (hc : c ∉ q) (hq : q ≠ []) (hlast : q.getLast hq ∉ u)
    (hhead : q.head hq ∉ v) : Barrier (u ++ c :: v) q := by
  intro x y h
  have hsplit : x ++ (u ++ c :: v) ++ y = x ++ u ++ [c] ++ (v ++ y) := by
    simp only [List.append_assoc, List.cons_append, List.nil_append]
  rw [hsplit] at h
  exact (barrier_singleton hc _ _ h).imp (infix_of_last hq hlast) (infix_of_head hq hhead)

end Barriers

/-! ## Replacing -/

/-- What a reading leaves of a text. -/
inductive Replaced (p r : List α) : List α → List α → Prop
  | nil : Replaced p r [] []
  | hit {l o : List α} : Replaced p r l o → Replaced p r (p ++ l) (r ++ o)
  | miss {a : α} {l o : List α} :
      ¬ p <+: a :: l → Replaced p r l o → Replaced p r (a :: l) (a :: o)

section Replace

variable [DecidableEq α] {p q r l o : List α}

/-- The reading, with so many symbols still to pass over. -/
def replaceFrom (p r : List α) : ℕ → List α → List α
  | _, [] => []
  | n + 1, _ :: l => replaceFrom p r n l
  | 0, a :: l =>
    if p.isPrefixOf (a :: l) then r ++ replaceFrom p r (p.length - 1) l
    else a :: replaceFrom p r 0 l

/-- Every occurrence of `p` that is met, replaced by `r`. -/
def replace (p r l : List α) : List α := replaceFrom p r 0 l

theorem replaced_replaceFrom (hp : p ≠ []) (l : List α) (n : ℕ) :
    Replaced p r (l.drop n) (replaceFrom p r n l) := by
  induction l generalizing n with
  | nil =>
    rw [List.drop_nil]
    cases n <;> exact .nil
  | cons a l ih =>
    cases n with
    | succ n => exact ih n
    | zero =>
      unfold replaceFrom
      split_ifs with hpre
      · -- a hit: its first symbol is read, the others are passed over
        rcases List.isPrefixOf_iff_prefix.1 hpre with ⟨t, ht⟩
        rcases List.exists_cons_of_ne_nil hp with ⟨b, p', rfl⟩
        rcases List.cons_eq_cons.1 ht with ⟨rfl, hl⟩
        have hrest := ih p'.length
        rw [← hl, List.append_eq, List.drop_left] at hrest
        rw [← hl]
        exact .hit hrest
      · exact .miss (fun h => hpre (List.isPrefixOf_iff_prefix.2 h)) (ih 0)

/-- **What a reading leaves**, occurrence by occurrence. -/
theorem replaced_replace (hp : p ≠ []) (l : List α) : Replaced p r l (replace p r l) :=
  replaced_replaceFrom hp l 0

omit [DecidableEq α] in
theorem Replaced.mem (h : Replaced p r l o) {a : α} (ha : a ∈ o) : a ∈ l ∨ a ∈ r := by
  induction h with
  | nil => exact .inl ha
  | hit _ ih =>
    rcases List.mem_append.1 ha with ha | ha
    · exact .inr ha
    · exact (ih ha).imp_left (List.mem_append_right _)
  | miss _ _ ih =>
    rcases List.mem_cons.1 ha with rfl | ha
    · exact .inl (List.mem_cons_self ..)
    · exact (ih ha).imp_left (List.mem_cons_of_mem _)

omit [DecidableEq α] in
/-- What occurs behind some symbols that were kept did so before. -/
theorem Replaced.infix_behind (hr : Barrier r q) (h : Replaced p r l o) (k : List α)
    (hq : q <:+: k ++ o) : q <:+: k ++ l := by
  induction h generalizing k with
  | nil => exact hq
  | hit _ ih =>
    rw [← List.append_assoc] at hq
    -- nothing occurs across what was put in
    rcases hr _ _ hq with hk | ho
    · exact hk.trans (List.infix_append_left)
    · have hl := ih [] ho
      exact hl.trans ((List.suffix_append _ _).trans (List.suffix_append _ _)).isInfix
  | miss _ _ ih =>
    rw [List.append_cons] at hq ⊢
    exact ih _ hq

omit [DecidableEq α] in
/-- **An occurrence that is left was there.** -/
theorem Replaced.infix_of (hr : Barrier r q) (h : Replaced p r l o) (hq : q <:+: o) : q <:+: l :=
  h.infix_behind hr [] hq

/-- No occurrence of `p` begins in `k`. -/
def NoneBegins (p k l : List α) : Prop := ∀ s t, s ++ p ++ t = k ++ l → k.length ≤ s.length

omit [DecidableEq α] in
theorem NoneBegins.not_infix (hp : p ≠ []) {k : List α} (h : NoneBegins p k l) :
    ¬ p <:+: k := by
  rintro ⟨s, t, rfl⟩
  have hle := h s (t ++ l) (by simp only [List.append_assoc])
  have hpos := List.length_pos_of_ne_nil hp
  rw [List.length_append, List.length_append] at hle
  omega

omit [DecidableEq α] in
theorem NoneBegins.snoc {k : List α} {a : α} (h : NoneBegins p k (a :: l))
    (ha : ¬ p <+: a :: l) : NoneBegins p (k ++ [a]) l := by
  intro s t hst
  rw [← List.append_cons] at hst
  have hle := h s t hst
  rw [List.length_append, List.length_singleton]
  refine lt_of_le_of_ne hle fun heq => ha ?_
  -- an occurrence at the end of `k` would begin the rest
  rw [List.append_assoc] at hst
  exact ⟨t, (List.append_inj hst heq.symm).2⟩

omit [DecidableEq α] in
theorem Replaced.clean_behind (hp : p ≠ []) (hr : Barrier r p) (h : Replaced p r l o)
    (k : List α) (hk : NoneBegins p k l) : ¬ p <:+: k ++ o := by
  induction h generalizing k with
  | nil =>
    rw [List.append_nil]
    exact hk.not_infix hp
  | hit _ ih =>
    intro hcon
    rw [← List.append_assoc] at hcon
    rcases hr _ _ hcon with hcon | hcon
    · exact hk.not_infix hp hcon
    · -- behind a hit the reading starts afresh
      exact ih [] (fun _ _ _ => Nat.zero_le _) hcon
  | miss ha _ ih =>
    rw [List.append_cons]
    exact ih _ (hk.snoc ha)

omit [DecidableEq α] in
/-- **No occurrence is left.** -/
theorem Replaced.clean (hp : p ≠ []) (hr : Barrier r p) (h : Replaced p r l o) : ¬ p <:+: o :=
  h.clean_behind hp hr [] fun _ _ _ => Nat.zero_le _

end Replace

end Substitute
