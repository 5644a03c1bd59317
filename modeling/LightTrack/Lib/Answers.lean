import Mathlib.Data.List.Nodup
import Mathlib.Data.List.Perm.Basic
import Mathlib.Tactic.Common

/-! # First answers

A list of answers of which each names what it answers, or does not, and can be read, or cannot.
What counts for a question is the first answer that names it and can be read.

* `first_perm` : under distinct names the order of the answers does not matter,
* `first_insert_of_ne`, `first_insert_of_answered` : answers to other questions and later answers
  to the same one do not matter.
-/

namespace Answers

variable {α β κ : Type*} [DecidableEq κ] {key : α → Option κ} {read : α → Option β} {k : κ}
  {l l' : List α} {a : α}

/-- What an answer replies to the question `k`. -/
def reply (key : α → Option κ) (read : α → Option β) (k : κ) (a : α) : Option β :=
  if key a = some k then read a else none

/-- The first answer to `k`. -/
def first (key : α → Option κ) (read : α → Option β) (k : κ) (l : List α) : Option β :=
  l.findSome? (reply key read k)

@[simp] theorem first_nil : first key read k [] = none := by simp [first]

theorem first_cons : first key read k (a :: l) = (reply key read k a).or (first key read k l) := by
  unfold first
  rw [List.findSome?_cons]
  cases reply key read k a <;> simp

theorem first_append : first key read k (l ++ l') =
    (first key read k l).or (first key read k l') := by
  simp [first]

theorem reply_of_ne (h : key a ≠ some k) : reply key read k a = none := if_neg h

theorem reply_of_eq (h : key a = some k) : reply key read k a = read a := if_pos h

/-- Nothing but the answers that name `k` decides its answer. -/
theorem first_filter : first key read k (l.filter fun a => decide (key a = some k)) =
    first key read k l := by
  induction l with
  | nil => simp
  | cons a l ih =>
    rw [List.filter_cons, first_cons]
    by_cases h : key a = some k
    · rw [if_pos (by simpa using h), first_cons, ih]
    · rw [if_neg (by simpa using h), ih, reply_of_ne h]
      simp

theorem first_congr (h : l.filter (fun a => decide (key a = some k)) =
    l'.filter fun a => decide (key a = some k)) : first key read k l = first key read k l' := by
  rw [← first_filter, h, first_filter]

/-- Under distinct names at most one answer names `k`. -/
theorem length_filter_le (h : (l.filterMap key).Nodup) :
    (l.filter fun a => decide (key a = some k)).length ≤ 1 := by
  induction l with
  | nil => simp
  | cons a l ih =>
    rw [List.filter_cons]
    by_cases hk : key a = some k
    · rw [List.filterMap_cons_some hk, List.nodup_cons] at h
      -- the rest names `k` nowhere
      have hnone : l.filter (fun a => decide (key a = some k)) = [] := by
        rw [List.filter_eq_nil_iff]
        intro b hb hkey
        exact h.1 (List.mem_filterMap.2 ⟨b, hb, by simpa using hkey⟩)
      simp [hk, hnone]
    · rw [if_neg (by simpa using hk)]
      apply ih
      cases hkey : key a with
      | none => rwa [List.filterMap_cons_none hkey] at h
      | some k' =>
        rw [List.filterMap_cons_some hkey] at h
        exact h.of_cons

/-- **Under distinct names the order of the answers does not matter.** -/
theorem first_perm (hperm : l.Perm l') (h : (l.filterMap key).Nodup) :
    first key read k l = first key read k l' := by
  apply first_congr
  have hfilter := hperm.filter fun a => decide (key a = some k)
  have hlen := length_filter_le (k := k) h
  generalize l.filter (fun a => decide (key a = some k)) = m at hfilter hlen ⊢
  -- a list of at most one element has one order
  rcases m with _ | ⟨a, _ | ⟨b, m⟩⟩
  · exact (List.nil_perm.1 hfilter).symm
  · exact (List.singleton_perm.1 hfilter)
  · simp at hlen

/-- An answer to another question does not matter. -/
theorem first_insert_of_ne (h : key a ≠ some k) :
    first key read k (l ++ a :: l') = first key read k (l ++ l') := by
  rw [first_append, first_append, first_cons, reply_of_ne h, Option.none_or]

/-- A later answer does not matter. -/
theorem first_insert_of_answered (h : (first key read k l).isSome = true) :
    first key read k (l ++ a :: l') = first key read k (l ++ l') := by
  rw [first_append, first_append]
  rcases Option.isSome_iff_exists.1 h with ⟨b, hb⟩
  rw [hb, Option.some_or, Option.some_or]

end Answers
