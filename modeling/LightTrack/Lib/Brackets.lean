import Mathlib.Data.List.Infix
import Mathlib.Tactic.Tauto

/-! # Brackets and literals

Texts with brackets that nest, and with literals between quotes in which brackets do not count and
an escape takes the next symbol along.

* `Body`, `Region` : what is balanced, as a grammar,
* `scan_eq_some_iff` : reading on to where the open brackets are closed finds what the grammar says,
* `regionAt_eq_some_iff`, `Region.unique` : so at most one region begins at a place.
-/

/-- Two brackets, a quote and an escape. -/
structure Brackets (α : Type*) where
  opening : α
  closing : α
  quote : α
  escape : α
  opening_ne_closing : opening ≠ closing
  opening_ne_quote : opening ≠ quote
  closing_ne_quote : closing ≠ quote
  escape_ne_quote : escape ≠ quote

namespace Brackets

variable {α : Type*} (b : Brackets α)

/-! ## The grammar -/

/-- What may stand between two quotes. -/
inductive Quoted : List α → Prop
  | nil : Quoted []
  | plain {c : α} {l : List α} : c ≠ b.quote → c ≠ b.escape → Quoted l → Quoted (c :: l)
  | escaped {c : α} {l : List α} : Quoted l → Quoted (b.escape :: c :: l)

/-- What may stand between two brackets. -/
inductive Body : List α → Prop
  | nil : Body []
  | plain {c : α} {l : List α} :
      c ≠ b.opening → c ≠ b.closing → c ≠ b.quote → Body l → Body (c :: l)
  | literal {w l : List α} : b.Quoted w → Body l → Body (b.quote :: (w ++ b.quote :: l))
  | nested {w l : List α} : Body w → Body l → Body (b.opening :: (w ++ b.closing :: l))

/-- A balanced region. -/
def Region (r : List α) : Prop := ∃ w, b.Body w ∧ r = b.opening :: (w ++ [b.closing])

/-- What closes so many open brackets: bodies, each with its bracket. -/
def Closes : ℕ → List α → Prop
  | 0, l => l = []
  | n + 1, l => ∃ w rest, b.Body w ∧ l = w ++ b.closing :: rest ∧ Closes n rest

/-- What ends an open literal and then closes so many brackets. -/
def Ends (n : ℕ) (l : List α) : Prop :=
  ∃ w rest, b.Quoted w ∧ l = w ++ b.quote :: rest ∧ b.Closes n rest

theorem region_cons {p : List α} : b.Region (b.opening :: p) ↔ b.Closes 1 p := by
  constructor
  · rintro ⟨w, hw, heq⟩
    exact ⟨w, [], hw, (List.cons.inj heq).2, rfl⟩
  · rintro ⟨w, rest, hw, rfl, rfl⟩
    exact ⟨w, hw, rfl⟩

/-! ## One symbol on -/

section Symbols

variable {b} {n : ℕ} {c : α} {l : List α}

theorem not_closes_succ_nil : ¬ b.Closes (n + 1) [] := by
  rintro ⟨w, rest, -, h, -⟩
  exact List.append_ne_nil_of_right_ne_nil w (List.cons_ne_nil _ _) h.symm

theorem not_ends_nil : ¬ b.Ends n [] := by
  rintro ⟨w, rest, -, h, -⟩
  exact List.append_ne_nil_of_right_ne_nil w (List.cons_ne_nil _ _) h.symm

theorem closes_closing : b.Closes (n + 1) (b.closing :: l) ↔ b.Closes n l := by
  constructor
  · rintro ⟨w, rest, hw, heq, hrest⟩
    cases hw with
    | nil =>
      rw [(List.cons.inj heq).2]
      exact hrest
    | plain _ hne _ _ => exact absurd (List.cons.inj heq).1.symm hne
    | literal _ _ => exact absurd (List.cons.inj heq).1 b.closing_ne_quote
    | nested _ _ => exact absurd (List.cons.inj heq).1.symm b.opening_ne_closing
  · intro h
    exact ⟨[], l, .nil, rfl, h⟩

theorem closes_opening : b.Closes (n + 1) (b.opening :: l) ↔ b.Closes (n + 2) l := by
  constructor
  · rintro ⟨w, rest, hw, heq, hrest⟩
    cases hw with
    | nil => exact absurd (List.cons.inj heq).1 b.opening_ne_closing
    | plain hne _ _ _ => exact absurd (List.cons.inj heq).1.symm hne
    | literal _ _ => exact absurd (List.cons.inj heq).1 b.opening_ne_quote
    | @nested w' l' hw' hl' =>
      refine ⟨w', l' ++ b.closing :: rest, hw', ?_, l', rest, hl', rfl, hrest⟩
      rw [(List.cons.inj heq).2]
      simp only [List.append_eq, List.append_assoc, List.cons_append]
  · rintro ⟨w, rest, hw, rfl, w', rest', hw', rfl, hrest⟩
    refine ⟨b.opening :: (w ++ b.closing :: w'), rest', .nested hw hw', ?_, hrest⟩
    simp only [List.append_assoc, List.cons_append]

theorem closes_quote : b.Closes (n + 1) (b.quote :: l) ↔ b.Ends (n + 1) l := by
  constructor
  · rintro ⟨w, rest, hw, heq, hrest⟩
    cases hw with
    | nil => exact absurd (List.cons.inj heq).1.symm b.closing_ne_quote
    | plain _ _ hne _ => exact absurd (List.cons.inj heq).1.symm hne
    | @literal w' l' hw' hl' =>
      refine ⟨w', l' ++ b.closing :: rest, hw', ?_, l', rest, hl', rfl, hrest⟩
      rw [(List.cons.inj heq).2]
      simp only [List.append_eq, List.append_assoc, List.cons_append]
    | nested _ _ => exact absurd (List.cons.inj heq).1.symm b.opening_ne_quote
  · rintro ⟨w, rest, hw, rfl, w', rest', hw', rfl, hrest⟩
    refine ⟨b.quote :: (w ++ b.quote :: w'), rest', .literal hw hw', ?_, hrest⟩
    simp only [List.append_assoc, List.cons_append]

theorem closes_plain (ho : c ≠ b.opening) (hc : c ≠ b.closing) (hq : c ≠ b.quote) :
    b.Closes (n + 1) (c :: l) ↔ b.Closes (n + 1) l := by
  constructor
  · rintro ⟨w, rest, hw, heq, hrest⟩
    cases hw with
    | nil => exact absurd (List.cons.inj heq).1 hc
    | @plain _ l' _ _ _ hl' => exact ⟨l', rest, hl', (List.cons.inj heq).2, hrest⟩
    | literal _ _ => exact absurd (List.cons.inj heq).1 hq
    | nested _ _ => exact absurd (List.cons.inj heq).1 ho
  · rintro ⟨w, rest, hw, rfl, hrest⟩
    exact ⟨c :: w, rest, .plain ho hc hq hw, rfl, hrest⟩

theorem ends_quote : b.Ends n (b.quote :: l) ↔ b.Closes n l := by
  constructor
  · rintro ⟨w, rest, hw, heq, hrest⟩
    cases hw with
    | nil =>
      rw [(List.cons.inj heq).2]
      exact hrest
    | plain hne _ _ => exact absurd (List.cons.inj heq).1.symm hne
    | escaped _ => exact absurd (List.cons.inj heq).1.symm b.escape_ne_quote
  · intro h
    exact ⟨[], l, .nil, rfl, h⟩

theorem ends_escape : b.Ends n (b.escape :: l) ↔ ∃ c rest, l = c :: rest ∧ b.Ends n rest := by
  constructor
  · rintro ⟨w, rest, hw, heq, hrest⟩
    cases hw with
    | nil => exact absurd (List.cons.inj heq).1 b.escape_ne_quote
    | plain _ hne _ => exact absurd (List.cons.inj heq).1.symm hne
    | @escaped c l' hl' => exact ⟨c, _, (List.cons.inj heq).2, l', rest, hl', rfl, hrest⟩
  · rintro ⟨c, _, rfl, w, rest, hw, rfl, hrest⟩
    exact ⟨b.escape :: c :: w, rest, .escaped hw, rfl, hrest⟩

theorem ends_plain (hq : c ≠ b.quote) (he : c ≠ b.escape) :
    b.Ends n (c :: l) ↔ b.Ends n l := by
  constructor
  · rintro ⟨w, rest, hw, heq, hrest⟩
    cases hw with
    | nil => exact absurd (List.cons.inj heq).1 hq
    | @plain _ l' _ _ hl' => exact ⟨l', rest, hl', (List.cons.inj heq).2, hrest⟩
    | escaped _ => exact absurd (List.cons.inj heq).1 he
  · rintro ⟨w, rest, hw, rfl, hrest⟩
    exact ⟨c :: w, rest, .plain hq he hw, rfl, hrest⟩

end Symbols

/-! ## Reading on -/

/-- Where a reading stands. -/
inductive Mode where
  | outside
  | quoted
  | escaped
  deriving DecidableEq

/-- What is still to come of a region, by where the reading stands. -/
def Awaits : Mode → ℕ → List α → Prop
  | .outside, n, l => b.Closes n l
  | .quoted, n, l => b.Ends n l
  | .escaped, n, l => ∃ c rest, l = c :: rest ∧ b.Ends n rest

/-- Something is still to come. -/
theorem not_awaits_nil {m : Mode} {n : ℕ} (hn : 1 ≤ n) : ¬ b.Awaits m n [] := by
  cases m with
  | outside =>
    rcases Nat.exists_eq_succ_of_ne_zero (Nat.one_le_iff_ne_zero.1 hn) with ⟨k, rfl⟩
    exact not_closes_succ_nil
  | quoted => exact not_ends_nil
  | escaped =>
    rintro ⟨c, rest, h, -⟩
    cases h

variable [DecidableEq α]

/-- Reads on until so many open brackets are closed. -/
def scan : Mode → ℕ → List α → Option (List α)
  | _, _, [] => none
  | .escaped, n, c :: l => (scan .quoted n l).map (c :: ·)
  | .quoted, n, c :: l =>
    if c = b.quote then (scan .outside n l).map (c :: ·)
    else if c = b.escape then (scan .escaped n l).map (c :: ·)
    else (scan .quoted n l).map (c :: ·)
  | .outside, n, c :: l =>
    if c = b.quote then (scan .quoted n l).map (c :: ·)
    else if c = b.opening then (scan .outside (n + 1) l).map (c :: ·)
    else if c = b.closing then
      if n = 1 then some [c] else (scan .outside (n - 1) l).map (c :: ·)
    else (scan .outside n l).map (c :: ·)

variable {b} {n : ℕ} {l p r : List α} {m m' : Mode}

/-- A reading goes on behind a symbol as the text does. -/
theorem map_scan_iff {n' : ℕ} {c : α}
    (ih : ∀ q, b.scan m' n' l = some q ↔ b.Awaits m' n' q ∧ q <+: l)
    (hcons : ∀ q, b.Awaits m n (c :: q) ↔ b.Awaits m' n' q) (hn : 1 ≤ n) :
    (b.scan m' n' l).map (c :: ·) = some p ↔ b.Awaits m n p ∧ p <+: c :: l := by
  rw [Option.map_eq_some_iff]
  constructor
  · rintro ⟨q, hq, rfl⟩
    rcases (ih q).1 hq with ⟨hawaits, hpre⟩
    exact ⟨(hcons q).2 hawaits, (List.prefix_cons_inj c).2 hpre⟩
  · rintro ⟨hawaits, hpre⟩
    rcases List.prefix_cons_iff.1 hpre with rfl | ⟨q, rfl, hq⟩
    · exact absurd hawaits (b.not_awaits_nil hn)
    · exact ⟨q, (ih q).2 ⟨(hcons q).1 hawaits, hq⟩, rfl⟩

/-- **Reading on finds what the grammar says.** -/
theorem scan_eq_some_iff (hn : 1 ≤ n) :
    b.scan m n l = some p ↔ b.Awaits m n p ∧ p <+: l := by
  induction l generalizing m n p with
  | nil =>
    have hnone : b.scan m n [] = none := by cases m <;> rfl
    rw [hnone]
    refine iff_of_false (Option.some_ne_none p).symm ?_
    rintro ⟨hawaits, hpre⟩
    rw [List.prefix_nil.1 hpre] at hawaits
    exact b.not_awaits_nil hn hawaits
  | cons c l ih =>
    cases m with
    | escaped =>
      -- behind an escape any symbol is passed over
      refine map_scan_iff (fun q => ih hn) (fun q => ?_) hn
      constructor
      · rintro ⟨c', rest, h, hends⟩
        rw [(List.cons.inj h).2]
        exact hends
      · exact fun h => ⟨c, q, rfl, h⟩
    | quoted =>
      unfold scan
      split_ifs with hq he
      · rw [hq]
        exact map_scan_iff (fun q => ih hn) (fun q => ends_quote) hn
      · rw [he]
        exact map_scan_iff (fun q => ih hn) (fun q => ends_escape) hn
      · exact map_scan_iff (fun q => ih hn) (fun q => ends_plain hq he) hn
    | outside =>
      -- some bracket is open, so the depth is a successor
      rcases Nat.exists_eq_succ_of_ne_zero (Nat.one_le_iff_ne_zero.1 hn) with ⟨k, rfl⟩
      unfold scan
      split_ifs with hq ho hc hone
      · rw [hq]
        exact map_scan_iff (fun q => ih hn) (fun q => closes_quote) hn
      · rw [ho]
        exact map_scan_iff (fun q => ih (Nat.le_add_left ..)) (fun q => closes_opening) hn
      · -- the last bracket
        rw [hc, hone, Option.some_inj]
        constructor
        · rintro rfl
          exact ⟨closes_closing.2 rfl, (List.prefix_cons_inj _).2 List.nil_prefix⟩
        · rintro ⟨hawaits, hpre⟩
          rcases List.prefix_cons_iff.1 hpre with rfl | ⟨q, rfl, -⟩
          · exact absurd hawaits (b.not_awaits_nil le_rfl)
          · have hq : q = [] := closes_closing.1 hawaits
            rw [hq]
      · rw [hc]
        exact map_scan_iff (fun q => ih (by omega)) (fun q => closes_closing) hn
      · exact map_scan_iff (fun q => ih hn) (fun q => closes_plain ho hc hq) hn

/-- The region a text begins with. -/
def regionAt (b : Brackets α) : List α → Option (List α)
  | [] => none
  | c :: l => if c = b.opening then (b.scan .outside 1 l).map (c :: ·) else none

/-- **The region a text begins with.** -/
theorem regionAt_eq_some_iff : b.regionAt l = some r ↔ b.Region r ∧ r <+: l := by
  cases l with
  | nil =>
    refine iff_of_false (Option.some_ne_none r).symm ?_
    rintro ⟨⟨w, -, rfl⟩, hpre⟩
    cases List.prefix_nil.1 hpre
  | cons c l =>
    change (if c = b.opening then (b.scan .outside 1 l).map (c :: ·) else none) = some r ↔ _
    by_cases ho : c = b.opening
    · -- the opening bracket is the first of depth one
      rw [if_pos ho, Option.map_eq_some_iff, ho]
      constructor
      · rintro ⟨p, hp, rfl⟩
        rcases (scan_eq_some_iff le_rfl).1 hp with ⟨hcloses, hpre⟩
        exact ⟨b.region_cons.2 hcloses, (List.prefix_cons_inj _).2 hpre⟩
      · rintro ⟨⟨w, hw, rfl⟩, hpre⟩
        exact ⟨_, (scan_eq_some_iff le_rfl).2
          ⟨b.region_cons.1 ⟨w, hw, rfl⟩, (List.prefix_cons_inj _).1 hpre⟩, rfl⟩
    · rw [if_neg ho]
      refine iff_of_false (Option.some_ne_none r).symm ?_
      rintro ⟨⟨w, -, rfl⟩, t, ht⟩
      exact ho (List.cons.inj ht).1.symm

/-- **At most one region begins at a place.** -/
theorem Region.unique {r' : List α} (h : b.Region r) (h' : b.Region r') (hr : r <+: l)
    (hr' : r' <+: l) : r = r' :=
  Option.some_inj.1 ((regionAt_eq_some_iff.2 ⟨h, hr⟩).symm.trans
    (regionAt_eq_some_iff.2 ⟨h', hr'⟩))

end Brackets
