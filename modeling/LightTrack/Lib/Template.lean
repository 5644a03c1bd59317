import Mathlib.Data.List.Infix
import Mathlib.Tactic.Common

/-! # Texts with holes

A text is read from the left up to an opening mark, and from there up to a closing mark; what
stands between is a hole.  A text without a hole in it is literal, an opening mark that nothing
closes included.

* `cut_eq_some_iff` : a text is cut at the first occurrence of a mark,
* `exists_reads`, `Reads.unique` : every text is read in one way,
* `fill_eq` : filling replaces hole by hole, and what fills a hole is not read again.
-/

namespace Template

variable {α : Type*} {p q l : List α}

/-! ## The first occurrence -/

/-- `p` does not begin inside `x` in the text `x ++ l`. -/
def Free (p x l : List α) : Prop := ∀ n < x.length, ¬ p <+: (x ++ l).drop n

theorem free_nil : Free p [] l := fun n hn => absurd hn (Nat.not_lt_zero n)

theorem free_cons {a : α} {x : List α} :
    Free p (a :: x) l ↔ ¬ p <+: a :: (x ++ l) ∧ Free p x l := by
  constructor
  · intro h
    refine ⟨h 0 (Nat.succ_pos _), ?_⟩
    intro n hn
    exact h (n + 1) (Nat.succ_lt_succ hn)
  · rintro ⟨hzero, hrest⟩ n hn
    cases n with
    | zero => exact hzero
    | succ n => exact hrest n (Nat.lt_of_succ_lt_succ hn)

variable [DecidableEq α]

/-- What stands before the first occurrence of `p`, and behind it. -/
def cut (p : List α) : List α → Option (List α × List α)
  | [] => if p.isPrefixOf [] then some ([], []) else none
  | a :: l =>
    if p.isPrefixOf (a :: l) then some ([], (a :: l).drop p.length)
    else (cut p l).map fun s => (a :: s.1, s.2)

theorem cut_of_starts (h : p <+: l) : cut p l = some ([], l.drop p.length) := by
  have hp : p.isPrefixOf l = true := List.isPrefixOf_iff_prefix.2 h
  cases l with
  | nil =>
    unfold cut
    rw [if_pos hp, List.drop_nil]
  | cons a l =>
    unfold cut
    rw [if_pos hp]

theorem cut_cons {a : α} (h : ¬ p <+: a :: l) :
    cut p (a :: l) = (cut p l).map fun s => (a :: s.1, s.2) := by
  rw [cut, if_neg fun hp => h (List.isPrefixOf_iff_prefix.1 hp)]

/-- **A text is cut at the first occurrence.** -/
theorem cut_eq_some_iff {x y : List α} :
    cut p l = some (x, y) ↔ l = x ++ (p ++ y) ∧ Free p x (p ++ y) := by
  induction l generalizing x with
  | nil =>
    constructor
    · intro h
      unfold cut at h
      split_ifs at h with hp
      obtain ⟨rfl, rfl⟩ := Prod.mk.inj (Option.some.inj h)
      rw [List.prefix_nil.1 (List.isPrefixOf_iff_prefix.1 hp)]
      exact ⟨rfl, free_nil⟩
    · rintro ⟨h, -⟩
      obtain ⟨rfl, hpy⟩ := List.append_eq_nil_iff.1 h.symm
      obtain ⟨rfl, rfl⟩ := List.append_eq_nil_iff.1 hpy
      exact cut_of_starts List.prefix_rfl
  | cons a l ih =>
    by_cases hp : p <+: a :: l
    · -- the mark stands at the front
      rw [cut_of_starts hp]
      rcases hp with ⟨t, ht⟩
      constructor
      · intro h
        obtain ⟨rfl, rfl⟩ := Prod.mk.inj (Option.some.inj h)
        rw [← ht, List.drop_left]
        exact ⟨rfl, free_nil⟩
      · rintro ⟨hl, hfree⟩
        cases x with
        | nil =>
          rw [List.nil_append] at hl
          rw [hl, List.drop_left]
        | cons b x =>
          rw [List.cons_append] at hl
          have hfirst := (free_cons.1 hfree).1
          rw [← hl] at hfirst
          exact absurd ⟨t, ht⟩ hfirst
    · rw [cut_cons hp, Option.map_eq_some_iff]
      constructor
      · rintro ⟨⟨x', y'⟩, hcut, h⟩
        obtain ⟨rfl, rfl⟩ := Prod.mk.inj h
        rcases ih.1 hcut with ⟨rfl, hfree⟩
        exact ⟨rfl, free_cons.2 ⟨hp, hfree⟩⟩
      · rintro ⟨hl, hfree⟩
        cases x with
        | nil =>
          rw [List.nil_append] at hl
          exact absurd ⟨y, hl.symm⟩ hp
        | cons b x =>
          rw [List.cons_append] at hl
          obtain ⟨rfl, rfl⟩ := List.cons.inj hl
          exact ⟨(x, y), ih.2 ⟨rfl, (free_cons.1 hfree).2⟩, rfl⟩

/-! ## Reading -/

/-- Holes, each with the literal text before it, and the literal text behind the last. -/
structure Text (α : Type*) where
  holes : List (List α × List α)
  tail : List α

namespace Text

/-- The text that is written so. -/
def written (p q : List α) (t : Text α) : List α :=
  t.holes.flatMap (fun h => h.1 ++ (p ++ (h.2 ++ q))) ++ t.tail

/-- What becomes of the text when its holes are filled. -/
def filled (v : List α → List α) (t : Text α) : List α :=
  t.holes.flatMap (fun h => h.1 ++ v h.2) ++ t.tail

end Text

/-- The reading of a text, mark by mark. -/
inductive Reads (p q : List α) : List α → Text α → Prop
  | tail {l : List α} : (∀ x y, cut p l = some (x, y) → cut q y = none) → Reads p q l ⟨[], l⟩
  | hole {l x y h rest : List α} {t : Text α} :
      cut p l = some (x, y) → cut q y = some (h, rest) → Reads p q rest t →
        Reads p q l ⟨(x, h) :: t.holes, t.tail⟩

theorem cut_length {x y : List α} (h : cut p l = some (x, y)) :
    l.length = x.length + (p.length + y.length) := by
  rw [(cut_eq_some_iff.1 h).1, List.length_append, List.length_append]

/-- **Every text can be read.** -/
theorem exists_reads (hp : p ≠ []) (l : List α) : ∃ t, Reads p q l t := by
  -- a hole takes at least its opening mark away
  induction hn : l.length using Nat.strongRecOn generalizing l with
  | _ n ih =>
    by_cases htail : ∀ x y, cut p l = some (x, y) → cut q y = none
    · exact ⟨_, .tail htail⟩
    · push Not at htail
      rcases htail with ⟨x, y, hcut, hclosed⟩
      rcases Option.ne_none_iff_exists'.1 hclosed with ⟨⟨h, rest⟩, hclose⟩
      have hlt : rest.length < n := by
        have hopen := cut_length hcut
        have hrest := cut_length hclose
        have hpos := List.length_pos_iff.2 hp
        omega
      obtain ⟨t, ht⟩ := ih _ hlt rest rfl
      exact ⟨_, .hole hcut hclose ht⟩

/-- **In one way only.** -/
theorem Reads.unique {t t' : Text α} (h : Reads p q l t) (h' : Reads p q l t') : t = t' := by
  induction h generalizing t' with
  | tail htail =>
    cases h' with
    | tail _ => rfl
    | hole hcut hclose _ =>
      rw [htail _ _ hcut] at hclose
      cases hclose
  | hole hcut hclose _ ih =>
    cases h' with
    | tail htail =>
      rw [htail _ _ hcut] at hclose
      cases hclose
    | hole hcut' hclose' hrest' =>
      rw [hcut] at hcut'
      obtain ⟨rfl, rfl⟩ := Prod.mk.inj (Option.some.inj hcut')
      rw [hclose] at hclose'
      obtain ⟨rfl, rfl⟩ := Prod.mk.inj (Option.some.inj hclose')
      rw [ih hrest']

/-- What is read is what was written. -/
theorem Reads.written {t : Text α} (h : Reads p q l t) : t.written p q = l := by
  induction h with
  | tail _ => rfl
  | hole hcut hclose _ ih =>
    unfold Text.written at ih ⊢
    rw [(cut_eq_some_iff.1 hcut).1, (cut_eq_some_iff.1 hclose).1, List.flatMap_cons,
      List.append_assoc, ih]
    simp only [List.append_assoc]

/-! ## Filling -/

section Fill

variable {ε : Type*}

/-- Read a text and fill its holes, `n` of them at most, up to the first that cannot be filled. -/
def fillUpTo (p q : List α) (v : List α → Except ε (List α)) :
    ℕ → List α → Except ε (List α)
  | 0, l => .ok l
  | n + 1, l =>
    match cut p l with
    | none => .ok l
    | some (x, y) =>
      match cut q y with
      | none => .ok l
      | some (h, rest) =>
        match v h with
        | .error e => .error e
        | .ok w => (fillUpTo p q v n rest).map fun o => x ++ (w ++ o)

/-- Read a text and fill its holes. A text has no more holes than elements. -/
def fill (p q : List α) (v : List α → Except ε (List α)) (l : List α) : Except ε (List α) :=
  fillUpTo p q v l.length l

variable {v : List α → Except ε (List α)}

theorem fillUpTo_tail (h : ∀ x y, cut p l = some (x, y) → cut q y = none) (n : ℕ) :
    fillUpTo p q v n l = .ok l := by
  cases n with
  | zero => rfl
  | succ n =>
    rw [fillUpTo]
    split
    · rfl
    next x y hcut => rw [h x y hcut]

theorem fillUpTo_hole {x y h rest : List α} (hcut : cut p l = some (x, y))
    (hclose : cut q y = some (h, rest)) (n : ℕ) : fillUpTo p q v (n + 1) l =
      match v h with
      | .error e => .error e
      | .ok w => (fillUpTo p q v n rest).map fun o => x ++ (w ++ o) := by
  rw [fillUpTo, hcut]
  dsimp only
  rw [hclose]

/-- What fills a hole; nothing where it cannot be filled. -/
def value (v : List α → Except ε (List α)) (h : List α) : List α :=
  match v h with
  | .ok w => w
  | .error _ => []

/-- Why a hole cannot be filled. -/
def failure (v : List α → Except ε (List α)) (h : List α) : Option ε :=
  match v h with
  | .ok _ => none
  | .error e => some e

theorem fillUpTo_eq (hp : p ≠ []) {t : Text α} (h : Reads p q l t) {n : ℕ} (hn : l.length ≤ n) :
    fillUpTo p q v n l =
      match t.holes.findSome? fun g => failure v g.2 with
      | some e => .error e
      | none => .ok (t.filled (value v)) := by
  induction h generalizing n with
  | tail htail => exact fillUpTo_tail htail n
  | @hole l x y h rest t hcut hclose _ ih =>
    -- a hole takes at least its opening mark away
    have hopen := cut_length hcut
    have hrest := cut_length hclose
    have hpos := List.length_pos_iff.2 hp
    obtain ⟨n, rfl⟩ : ∃ m, n = m + 1 := ⟨n - 1, by omega⟩
    rw [fillUpTo_hole hcut hclose, ih (by omega), List.findSome?_cons]
    cases hv : v h with
    | error e =>
      have hfail : failure v h = some e := by
        unfold failure
        rw [hv]
      rw [hfail]
    | ok w =>
      have hfail : failure v h = none := by
        unfold failure
        rw [hv]
      have hvalue : value v h = w := by
        unfold value
        rw [hv]
      rw [hfail]
      dsimp only
      cases t.holes.findSome? fun g => failure v g.2 with
      | some e => rfl
      | none =>
        refine congrArg Except.ok ?_
        unfold Text.filled
        rw [List.flatMap_cons, hvalue]
        simp only [List.append_assoc]

/-- **Filling replaces every hole by what fills it**, or fails with the first that cannot be
filled. -/
theorem fill_eq (hp : p ≠ []) {t : Text α} (h : Reads p q l t) : fill p q v l =
    match t.holes.findSome? fun g => failure v g.2 with
    | some e => .error e
    | none => .ok (t.filled (value v)) :=
  fillUpTo_eq hp h le_rfl

end Fill

end Template
