import Mathlib.Data.List.Basic
import Mathlib.Order.Lattice

/-! # Stable sorting

* `filter_mergeSort` : what a sort keeps is the sort of what is kept, so a selection after a stable
  sort can be made before it,
* `lex_trans`, `lex_total` : a sort by one key, then by others.
-/

namespace Stable

variable {α : Type*} {le : α → α → Bool}

/-- A list splits in one way only into a part that satisfies `q` and a rest that does not. -/
theorem split_unique {q : α → Bool} {l₁ l₂ m₁ m₂ : List α} (h : l₁ ++ l₂ = m₁ ++ m₂)
    (hl₁ : ∀ b ∈ l₁, q b = true) (hl₂ : ∀ b ∈ l₂, q b = false)
    (hm₁ : ∀ b ∈ m₁, q b = true) (hm₂ : ∀ b ∈ m₂, q b = false) : l₁ = m₁ ∧ l₂ = m₂ := by
  have hleft : ∀ {u v : List α}, (∀ b ∈ u, q b = true) → (∀ b ∈ v, q b = false) →
      (u ++ v).filter q = u := by
    intro u v hu hv
    rw [List.filter_append, List.filter_eq_self.2 hu,
      List.filter_eq_nil_iff.2 fun b hb => by rw [hv b hb]; exact Bool.false_ne_true,
      List.append_nil]
  have heq : l₁ = m₁ := by
    rw [← hleft hl₁ hl₂, h, hleft hm₁ hm₂]
  exact ⟨heq, List.append_cancel_left (heq ▸ h)⟩

/-- Where a sort puts an element: after all that are strictly below it. -/
theorem mergeSort_cons_split (htrans : ∀ a b c, le a b → le b c → le a c)
    (htotal : ∀ a b, le a b || le b a) (a : α) (l : List α) :
    ∃ l₁ l₂, (a :: l).mergeSort le = l₁ ++ a :: l₂ ∧ l.mergeSort le = l₁ ++ l₂ ∧
      (∀ b ∈ l₁, (!le a b) = true) ∧ ∀ b ∈ l₂, (!le a b) = false := by
  rcases List.mergeSort_cons htrans htotal a l with ⟨l₁, l₂, hcons, hl, hl₁⟩
  refine ⟨l₁, l₂, hcons, hl, hl₁, ?_⟩
  have hsorted := List.pairwise_mergeSort htrans htotal (a :: l)
  rw [hcons, List.pairwise_append, List.pairwise_cons] at hsorted
  intro b hb
  rw [hsorted.2.1.1 b hb]
  rfl

/-- **Selecting after a stable sort is sorting what is selected.** -/
theorem filter_mergeSort (htrans : ∀ a b c, le a b → le b c → le a c)
    (htotal : ∀ a b, le a b || le b a) (p : α → Bool) (l : List α) :
    (l.mergeSort le).filter p = (l.filter p).mergeSort le := by
  induction l with
  | nil => rw [List.mergeSort_nil, List.filter_nil, List.mergeSort_nil]
  | cons a l ih =>
    rcases mergeSort_cons_split htrans htotal a l with ⟨l₁, l₂, hcons, hl, hl₁, hl₂⟩
    rw [hl, List.filter_append] at ih
    rw [hcons, List.filter_append]
    by_cases hp : p a = true
    · rw [List.filter_cons_of_pos hp, List.filter_cons_of_pos hp]
      rcases mergeSort_cons_split htrans htotal a (l.filter p) with ⟨m₁, m₂, hcons', hl', hm₁, hm₂⟩
      -- both splits are of one list, at `a`
      rw [hl'] at ih
      rcases split_unique ih (fun b hb => hl₁ b (List.mem_filter.1 hb).1)
        (fun b hb => hl₂ b (List.mem_filter.1 hb).1) hm₁ hm₂ with ⟨h₁, h₂⟩
      rw [hcons', h₁, h₂]
    · rw [List.filter_cons_of_neg hp, List.filter_cons_of_neg hp]
      exact ih

/-! ## Several keys -/

section Lex

variable {β : Type*} {x y z : β} {p q r : Prop}

/-- A first key and then the others: transitive where the others are. -/
theorem lex_trans [Preorder β] (hxy : x < y ∨ x = y ∧ p) (hyz : y < z ∨ y = z ∧ q)
    (h : p → q → r) : x < z ∨ x = z ∧ r := by
  rcases hxy with hxy | ⟨rfl, hp⟩
  · rcases hyz with hyz | ⟨rfl, -⟩
    · exact .inl (lt_trans hxy hyz)
    · exact .inl hxy
  · exact hyz.imp_right fun hyz => ⟨hyz.1, h hp hyz.2⟩

/-- And total where they are. -/
theorem lex_total [LinearOrder β] (x y : β) (h : p ∨ q) :
    (x < y ∨ x = y ∧ p) ∨ (y < x ∨ y = x ∧ q) := by
  rcases lt_trichotomy x y with hlt | rfl | hgt
  · exact .inl (.inl hlt)
  · exact h.imp (fun hp => .inr ⟨rfl, hp⟩) fun hq => .inr ⟨rfl, hq⟩
  · exact .inr (.inl hgt)

end Lex

end Stable
