import LightTrack.Engine.Sample
import LightTrack.Lib.Brackets
import Mathlib.Data.List.TakeWhile

/-! # Which object is extracted

`extractJsonObject` tries every opening brace of a reply in turn, and falls back on what lies
between the first opening and the last closing brace.

* `objectAt_eq_some_iff` : the scan finds what the grammar of braces and literals calls a region,
* `extract_earliest` : of the regions that parse the earliest is extracted, and it lies inside no
  other,
* `inner_extracted` : it may lie inside one that does not parse.
-/

namespace LightTrack.Engine

/-- The braces of JSON. -/
def braces : Brackets Char where
  opening := '{'
  closing := '}'
  quote := '"'
  escape := '\\'
  opening_ne_closing := by decide
  opening_ne_quote := by decide
  closing_ne_quote := by decide
  escape_ne_quote := by decide

/-- A balanced region of a text that parses, behind `pre`. -/
structure Found (rd : JsonReader) (s pre r : List Char) : Prop where
  region : braces.Region r
  parses : (rd.fromStr (String.ofList r)).isSome = true
  occurs : pre ++ r <+: s

/-- No region that parses begins earlier, and none goes around it. -/
structure Earliest (rd : JsonReader) (s pre r : List Char) : Prop where
  found : Found rd s pre r
  first : ∀ pre' r', Found rd s pre' r' → pre.length ≤ pre'.length
  outermost : ∀ pre' r', Found rd s pre' r' → pre'.length ≤ pre.length →
    (pre ++ r).length ≤ (pre' ++ r').length → pre' = pre ∧ r' = r

/-- What lies between the first opening and the last closing brace. -/
def Slice (s t : List Char) : Prop :=
  ∃ a m c, s = a ++ '{' :: (m ++ '}' :: c) ∧ '{' ∉ a ∧ '}' ∉ c ∧ t = '{' :: (m ++ ['}'])

/-- What is extracted of a text. -/
structure Extracts (rd : JsonReader) (s : List Char) (out : Option String) : Prop where
  found : (∃ pre r, Found rd s pre r) →
    ∃ pre r, Earliest rd s pre r ∧ out = some (String.ofList r)
  fallback : (¬ ∃ pre r, Found rd s pre r) →
    ∀ t, out = some t ↔ ∃ r, Slice s r ∧ t = String.ofList r

/-! ## The object at a brace -/

section Scan

variable {rd : JsonReader} {cs l r s pre : List Char} {depth : ℕ} {t : String}

/-- `balanced_end` reads on as the library does. -/
theorem balancedPrefix_eq (cs : List Char) (depth : ℕ) :
    balancedPrefix depth false false cs = braces.scan .outside depth cs ∧
      balancedPrefix depth true false cs = braces.scan .quoted depth cs ∧
      balancedPrefix depth true true cs = braces.scan .escaped depth cs := by
  induction cs generalizing depth with
  | nil => exact ⟨rfl, rfl, rfl⟩
  | cons c cs ih =>
    refine ⟨?_, ?_, ?_⟩
    · -- outside a literal
      by_cases hq : c = '"'
      · subst hq
        exact congrArg _ (ih depth).2.1
      · by_cases ho : c = '{'
        · subst ho
          exact congrArg _ (ih (depth + 1)).1
        · by_cases hc : c = '}'
          · subst hc
            have hscan : braces.scan .outside depth ('}' :: cs) = if depth = 1 then some ['}']
                else (braces.scan .outside (depth - 1) cs).map ('}' :: ·) := rfl
            rw [hscan, ← (ih (depth - 1)).1]
            rfl
          · have hscan : braces.scan .outside depth (c :: cs) =
                (braces.scan .outside depth cs).map (c :: ·) := by
              simp [Brackets.scan, braces, hq, ho, hc]
            rw [hscan, ← (ih depth).1]
            exact balancedPrefix.eq_8 depth false c cs hq ho hc
    · -- in a literal
      by_cases hq : c = '"'
      · subst hq
        exact congrArg _ (ih depth).1
      · by_cases he : c = '\\'
        · subst he
          exact congrArg _ (ih depth).2.2
        · have hscan : braces.scan .quoted depth (c :: cs) =
              (braces.scan .quoted depth cs).map (c :: ·) := by
            simp [Brackets.scan, braces, hq, he]
          rw [hscan, ← (ih depth).2.1]
          simp [balancedPrefix, hq, he]
    · -- behind an escape
      have hscan : braces.scan .escaped depth (c :: cs) =
          (braces.scan .quoted depth cs).map (c :: ·) := rfl
      rw [hscan, ← (ih depth).2.1]
      simp [balancedPrefix]

/-- **The object at a brace** is the region there, if it parses. -/
theorem objectAt_eq_some_iff : objectAt rd cs = some t ↔
    ∃ r, braces.Region r ∧ r <+: cs ∧ t = String.ofList r ∧ (rd.fromStr t).isSome = true := by
  have hregion : objectAt rd cs =
      ((braces.regionAt cs).map String.ofList).filter fun s => (rd.fromStr s).isSome := by
    unfold objectAt
    cases cs with
    | nil => rfl
    | cons c cs =>
      by_cases hc : c = '{'
      · subst hc
        have hpre : balancedPrefix 0 false false ('{' :: cs) = braces.regionAt ('{' :: cs) :=
          congrArg _ (balancedPrefix_eq cs 1).1
        rw [hpre]
        rfl
      · have hnone : braces.regionAt (c :: cs) = none := if_neg hc
        rw [hnone, if_neg (by simpa using hc)]
        rfl
  rw [hregion, Option.filter_eq_some_iff, Option.map_eq_some_iff]
  constructor
  · rintro ⟨⟨r, hr, rfl⟩, hparses⟩
    rcases Brackets.regionAt_eq_some_iff.1 hr with ⟨hregion, hpre⟩
    exact ⟨r, hregion, hpre, rfl, hparses⟩
  · rintro ⟨r, hr, hpre, rfl, hparses⟩
    exact ⟨⟨r, Brackets.regionAt_eq_some_iff.2 ⟨hr, hpre⟩, rfl⟩, hparses⟩

/-- The regions that parse are where an object is found. -/
theorem found_iff : Found rd s pre r ↔
    ∃ suf, s = pre ++ suf ∧ r <+: suf ∧ objectAt rd suf = some (String.ofList r) := by
  constructor
  · rintro ⟨hregion, hparses, post, hpost⟩
    refine ⟨r ++ post, by rw [← hpost, List.append_assoc], List.prefix_append .., ?_⟩
    exact objectAt_eq_some_iff.2 ⟨r, hregion, List.prefix_append .., rfl, hparses⟩
  · rintro ⟨suf, rfl, hpre, hobj⟩
    rcases objectAt_eq_some_iff.1 hobj with ⟨r', hregion, -, heq, hparses⟩
    rw [String.ofList_inj.1 heq] at hpre hparses ⊢
    exact ⟨hregion, hparses, (List.prefix_append_right_inj pre).2 hpre⟩

end Scan

/-! ## The first object -/

section First

variable {α β : Type*} {f : List α → Option β} {l : List α} {x : β}

/-- The first suffix of which there is an answer. -/
theorem findSome?_tails_eq_some_iff : l.tails.findSome? f = some x ↔
    ∃ pre suf, l = pre ++ suf ∧ f suf = some x ∧
      ∀ pre' suf', l = pre' ++ suf' → pre'.length < pre.length → f suf' = none := by
  induction l with
  | nil =>
    rw [List.tails, List.findSome?_singleton]
    constructor
    · intro h
      exact ⟨[], [], rfl, h, fun _ _ _ hlt => absurd hlt (Nat.not_lt_zero _)⟩
    · rintro ⟨pre, suf, hl, hsuf, -⟩
      rw [← (List.append_eq_nil_iff.1 hl.symm).2]
      exact hsuf
  | cons a l ih =>
    rw [List.tails, List.findSome?_cons]
    cases hf : f (a :: l) with
    | some y =>
      -- the whole text has an answer, so no shorter suffix counts
      simp only
      constructor
      · intro hy
        exact ⟨[], a :: l, rfl, hf.trans hy, fun _ _ _ hlt => absurd hlt (Nat.not_lt_zero _)⟩
      · rintro ⟨pre, suf, hl, hsuf, hfirst⟩
        cases pre with
        | nil =>
          rw [List.nil_append] at hl
          rw [← hf, hl, hsuf]
        | cons b pre =>
          rw [hfirst [] (a :: l) rfl (Nat.succ_pos _)] at hf
          cases hf
    | none =>
      simp only
      rw [ih]
      constructor
      · rintro ⟨pre, suf, rfl, hsuf, hfirst⟩
        refine ⟨a :: pre, suf, rfl, hsuf, fun pre' suf' hl hlt => ?_⟩
        cases pre' with
        | nil =>
          rw [List.nil_append] at hl
          rw [← hl, hf]
        | cons b pre' =>
          exact hfirst pre' suf' (List.cons.inj hl).2 (Nat.lt_of_succ_lt_succ hlt)
      · rintro ⟨pre, suf, hl, hsuf, hfirst⟩
        cases pre with
        | nil =>
          rw [List.nil_append] at hl
          rw [hl, hsuf] at hf
          cases hf
        | cons b pre =>
          rcases List.cons.inj hl with ⟨rfl, rfl⟩
          refine ⟨pre, suf, rfl, hsuf, fun pre' suf' hl' hlt => ?_⟩
          exact hfirst (a :: pre') suf' (congrArg _ hl') (Nat.succ_lt_succ hlt)

theorem findSome?_tails_eq_none_iff :
    l.tails.findSome? f = none ↔ ∀ pre suf, l = pre ++ suf → f suf = none := by
  rw [List.findSome?_eq_none_iff]
  constructor
  · intro h pre suf hl
    exact h suf ((List.mem_tails ..).2 (hl ▸ List.suffix_append ..))
  · intro h suf hsuf
    rcases (List.mem_tails ..).1 hsuf with ⟨pre, hpre⟩
    exact h pre suf hpre.symm

end First

/-! ## The slice -/

section Slices

variable {x : Char} {a b l s t : List Char}

theorem dropWhile_of_not_mem (h : x ∉ a) : (a ++ x :: b).dropWhile (· != x) = x :: b := by
  rw [List.dropWhile_append_of_pos]
  · exact List.dropWhile_cons_of_neg (by simp)
  · intro c hc
    rw [bne_iff_ne]
    rintro rfl
    exact h hc

/-- What is dropped of a text ends before the first `x`. -/
theorem dropWhile_eq_cons_iff : l.dropWhile (· != x) = x :: b ↔ ∃ a, l = a ++ x :: b ∧ x ∉ a := by
  constructor
  · intro h
    refine ⟨l.takeWhile (· != x), ?_, ?_⟩
    · rw [← h, List.takeWhile_append_dropWhile]
    · intro hmem
      have hne := List.mem_takeWhile_imp hmem
      simp at hne
  · rintro ⟨a, rfl, ha⟩
    exact dropWhile_of_not_mem ha

/-- Nothing is left of a text without `x`, and what is left of another begins with it. -/
theorem dropWhile_eq_nil_or (x : Char) (l : List Char) :
    l.dropWhile (· != x) = [] ∨ ∃ b, l.dropWhile (· != x) = x :: b := by
  by_cases h : x ∈ l
  · rcases List.eq_append_cons_of_mem h with ⟨a, b, rfl, ha⟩
    exact .inr ⟨b, dropWhile_of_not_mem ha⟩
  · left
    rw [List.dropWhile_eq_nil_iff]
    intro c hc
    rw [bne_iff_ne]
    rintro rfl
    exact h hc

/-- The slice of the fallback. -/
def sliceOf (s : List Char) : List Char :=
  ((s.dropWhile (· != '{')).reverse.dropWhile (· != '}')).reverse

theorem slice_iff : t ≠ [] ∧ sliceOf s = t ↔ Slice s t := by
  unfold sliceOf
  constructor
  · rintro ⟨hne, rfl⟩
    rcases dropWhile_eq_nil_or '{' s with hrest | ⟨b, hrest⟩
    · rw [hrest] at hne
      exact absurd rfl hne
    · rw [hrest] at hne ⊢
      rcases dropWhile_eq_nil_or '}' ('{' :: b).reverse with hback | ⟨back, hback⟩
      · rw [hback] at hne
        exact absurd rfl hne
      · rcases dropWhile_eq_cons_iff.1 hrest with ⟨a, rfl, ha⟩
        rcases dropWhile_eq_cons_iff.1 hback with ⟨c, hrev, hc⟩
        rw [List.reverse_eq_iff, List.reverse_append, List.reverse_cons, List.append_assoc] at hrev
        -- the closing brace lies behind the opening one
        cases hm : back.reverse with
        | nil =>
          rw [hm] at hrev
          exact absurd (List.cons.inj hrev).1 (by decide)
        | cons d m =>
          rw [hm] at hrev
          rcases List.cons.inj hrev with ⟨rfl, rfl⟩
          refine ⟨a, m, c.reverse, rfl, ha, fun hmem => hc (List.mem_reverse.1 hmem), ?_⟩
          rw [hback, List.reverse_cons, hm]
          rfl
  · rintro ⟨a, m, c, rfl, ha, hc, rfl⟩
    have hrev : ('{' :: (m ++ '}' :: c)).reverse = c.reverse ++ '}' :: (m.reverse ++ ['{']) := by
      simp
    rw [dropWhile_of_not_mem ha, hrev,
      dropWhile_of_not_mem fun hmem => hc (List.mem_reverse.1 hmem)]
    simp

end Slices

/-! ## What is extracted -/

section Extraction

variable {rd : JsonReader} {s pre r pre' r' : List Char} {t : String}

theorem tails_eq_none_iff :
    s.tails.findSome? (objectAt rd) = none ↔ ¬ ∃ pre r, Found rd s pre r := by
  rw [findSome?_tails_eq_none_iff]
  constructor
  · rintro h ⟨pre, r, hfound⟩
    rcases found_iff.1 hfound with ⟨suf, hs, -, hobj⟩
    rw [h pre suf hs] at hobj
    cases hobj
  · intro h pre suf hs
    refine Option.eq_none_iff_forall_ne_some.2 fun t ht => ?_
    rcases objectAt_eq_some_iff.1 ht with ⟨r, -, hpre, rfl, -⟩
    exact h ⟨pre, r, found_iff.2 ⟨suf, hs, hpre, ht⟩⟩

/-- Two regions that parse and begin at the same place are the same. -/
theorem Found.unique (h : Found rd s pre r) (h' : Found rd s pre' r')
    (hlen : pre'.length = pre.length) : pre' = pre ∧ r' = r := by
  rcases found_iff.1 h with ⟨suf, hs, hr, -⟩
  rcases found_iff.1 h' with ⟨suf', hs', hr', -⟩
  rcases List.append_inj (hs'.symm.trans hs) hlen with ⟨rfl, rfl⟩
  exact ⟨rfl, Brackets.Region.unique h'.region h.region hr' hr⟩

/-- The first suffix with an object at its head begins the earliest one. -/
theorem earliest_of_tails (h : s.tails.findSome? (objectAt rd) = some t) :
    ∃ pre r, Earliest rd s pre r ∧ t = String.ofList r := by
  rcases findSome?_tails_eq_some_iff.1 h with ⟨pre, suf, hs, hobj, hfirst⟩
  rcases objectAt_eq_some_iff.1 hobj with ⟨r, -, hpre, rfl, -⟩
  have hfound : Found rd s pre r := found_iff.2 ⟨suf, hs, hpre, hobj⟩
  have hearly : ∀ pre' r', Found rd s pre' r' → pre.length ≤ pre'.length := by
    intro pre' r' hfound'
    rcases found_iff.1 hfound' with ⟨suf', hs', -, hobj'⟩
    refine not_lt.1 fun hlt => ?_
    rw [hfirst pre' suf' hs' hlt] at hobj'
    cases hobj'
  -- a region around it begins at the same place, and only one does
  exact ⟨pre, r, ⟨hfound, hearly, fun pre' r' hfound' hle _ =>
    hfound.unique hfound' (le_antisymm hle (hearly pre' r' hfound'))⟩, rfl⟩

/-- Where no object is found, the slice is what is left. -/
theorem extractJsonObject_of_none {s : String}
    (h : s.toList.tails.findSome? (objectAt rd) = none) : extractJsonObject rd s = some t ↔
      ∃ r, Slice s.toList r ∧ t = String.ofList r := by
  have hslice : extractJsonObject rd s =
      if (sliceOf s.toList).isEmpty then none else some (String.ofList (sliceOf s.toList)) := by
    unfold extractJsonObject
    rw [h]
    rfl
  rw [hslice]
  constructor
  · intro h
    split_ifs at h with hempty
    refine ⟨sliceOf s.toList, slice_iff.1 ⟨?_, rfl⟩, (Option.some.inj h).symm⟩
    rwa [List.isEmpty_iff] at hempty
  · rintro ⟨r, hr, rfl⟩
    rcases slice_iff.2 hr with ⟨hne, rfl⟩
    rw [if_neg]
    rwa [List.isEmpty_iff]

end Extraction

/-- **The earliest object is extracted**, and it lies inside no other. -/
theorem extract_earliest (rd : JsonReader) (s : String) :
    Extracts rd s.toList (extractJsonObject rd s) := by
  constructor
  · intro hfound
    cases htails : s.toList.tails.findSome? (objectAt rd) with
    | none => exact absurd hfound (tails_eq_none_iff.1 htails)
    | some t =>
      rcases earliest_of_tails htails with ⟨pre, r, hearliest, rfl⟩
      refine ⟨pre, r, hearliest, ?_⟩
      unfold extractJsonObject
      rw [htails]
      rfl
  · intro hnone t
    exact extractJsonObject_of_none (tails_eq_none_iff.2 hnone)

/-- A reader that knows the text of one object. -/
def oneObject : JsonReader where
  fromStr s := if s = "\x7b\"score\":1\x7d" then some (.obj [("score", .num (.int 1))]) else none
  f64Of _ := 0

/-- An object inside a balanced region that does not parse is extracted, and a region that does not
parse is. -/
theorem inner_extracted :
    braces.Region "\x7bverdict \x7b\"score\":1\x7d\x7d".toList ∧
    oneObject.fromStr "\x7bverdict \x7b\"score\":1\x7d\x7d" = none ∧
    extractJsonObject oneObject "\x7bverdict \x7b\"score\":1\x7d\x7d" = some "\x7b\"score\":1\x7d" ∧
    extractJsonObject oneObject "\x7bscore\x7d" = some "\x7bscore\x7d" := by
  refine ⟨?_, by decide +kernel, by decide +kernel, by decide +kernel⟩
  have hat : braces.regionAt "\x7bverdict \x7b\"score\":1\x7d\x7d".toList =
      some "\x7bverdict \x7b\"score\":1\x7d\x7d".toList := by decide +kernel
  exact (Brackets.regionAt_eq_some_iff.1 hat).1

end LightTrack.Engine
