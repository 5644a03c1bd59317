import Mathlib.Data.List.Basic
import Mathlib.Order.Nat
import Mathlib.Tactic.Common

/-! # Taking from the front of a list, a page at a time

A page gives up its good elements and leaves the others, which come back at the front of the next
one.

* `reached_step_iff` : a page moves nothing out of reach,
* `reached_iff_of_page_bad` : a page of bad elements is the end.
-/

namespace Paging

variable {α : Type*} (good : α → Bool) (page : ℕ)

/-- No good element lies behind a page of bad ones. -/
def Reached (l : List α) : Prop :=
  ∀ pre a post, l = pre ++ a :: post → good a = true → pre.countP (fun b => !good b) < page

/-- What a page leaves. -/
def step (l : List α) : List α := (l.take page).filter (fun b => !good b) ++ l.drop page

variable {good page} {l : List α}

theorem reached_of_short (h : l.length < page) : Reached good page l := by
  rintro pre a post rfl -
  have hcount : pre.countP (fun b => !good b) ≤ pre.length := List.countP_le_length
  rw [List.length_append, List.length_cons] at h
  omega

/-- A page never puts its own elements out of reach. -/
theorem reached_append {hd tl : List α} (hhd : hd.length ≤ page) :
    Reached good page (hd ++ tl) ↔ ∀ pre a post, tl = pre ++ a :: post → good a = true →
      hd.countP (fun b => !good b) + pre.countP (fun b => !good b) < page := by
  constructor
  · rintro h pre a post rfl ha
    rw [← List.countP_append]
    exact h (hd ++ pre) a post (List.append_assoc ..).symm ha
  · intro h pre a post hsplit ha
    rcases List.append_eq_append_iff.1 hsplit with ⟨mid, rfl, htl⟩ | ⟨mid, rfl, hpost⟩
    · rw [List.countP_append]
      exact h mid a post htl ha
    · cases mid with
      | nil => exact (List.append_nil pre) ▸ h [] a post hpost.symm ha
      | cons b mid =>
        -- the element is one of the page itself
        have hcount : pre.countP (fun b => !good b) ≤ pre.length := List.countP_le_length
        rw [List.length_append, List.length_cons] at hhd
        omega

/-- **A page moves nothing into reach or out of it.** -/
theorem reached_step_iff : Reached good page (step good page l) ↔ Reached good page l := by
  have htake : (l.take page).length ≤ page := List.length_take_le page l
  have hkept : ((l.take page).filter fun b => !good b).length ≤ page :=
    (List.length_filter_le _ _).trans htake
  have hcount : ((l.take page).filter fun b => !good b).countP (fun b => !good b) =
      (l.take page).countP fun b => !good b := by
    rw [List.countP_filter]
    simp only [Bool.and_self]
  conv_rhs => rw [← List.take_append_drop page l]
  unfold step
  rw [reached_append hkept, reached_append htake, hcount]

/-- **Behind a page of bad elements nothing is in reach.** -/
theorem reached_iff_of_page_bad (h : ∀ a ∈ l.take page, good a = false) :
    Reached good page l ↔ ∀ a ∈ l, good a = false := by
  constructor
  · intro hreached a ha
    rw [← List.take_append_drop page l, List.mem_append] at ha
    rcases ha with ha | ha
    · exact h a ha
    · by_contra hgood
      obtain ⟨pre, post, hsplit⟩ := List.append_of_mem ha
      have hlong : page < l.length := by
        by_contra hshort
        rw [List.drop_eq_nil_of_le (not_lt.1 hshort)] at ha
        exact absurd ha List.not_mem_nil
      have hbad : (l.take page).countP (fun b => !good b) = page := by
        rw [List.countP_eq_length.2 fun b hb => by rw [h b hb]; rfl,
          List.length_take_of_le hlong.le]
      have hcount := hreached (l.take page ++ pre) a post
        (by rw [List.append_assoc, ← hsplit, List.take_append_drop])
        (Bool.not_eq_false _ ▸ hgood)
      rw [List.countP_append, hbad] at hcount
      omega
  · rintro hbad pre a post rfl ha
    rw [hbad a (List.mem_append_right _ List.mem_cons_self)] at ha
    exact absurd ha Bool.false_ne_true

theorem step_of_page_bad (h : ∀ a ∈ l.take page, good a = false) : step good page l = l := by
  unfold step
  rw [List.filter_eq_self.2 fun a ha => by rw [h a ha]; rfl, List.take_append_drop]

/-- The last page leaves no good element. -/
theorem step_of_short (h : l.length < page) : ∀ a ∈ step good page l, good a = false := by
  intro a ha
  unfold step at ha
  rw [List.drop_eq_nil_of_le h.le, List.append_nil] at ha
  simpa using (List.mem_filter.1 ha).2

end Paging
