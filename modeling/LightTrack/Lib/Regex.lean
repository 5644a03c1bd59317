import Mathlib.Data.List.Basic
import Mathlib.Tactic.Common

/-! # Patterns with word boundaries

Patterns are matched by backtracking: `run` lists the ways in which a pattern matches at a place,
the preferred way first. A place is what stands before it and the rest of the text; of what
stands before, a pattern only asks whether it is a word symbol.

* `run_spec` : the ways listed are the matches,
* `Matches.allows`, `Matches.minLen_le` : the symbols and the length of a match,
* `Matches.lastWord_ne`, `Matches.headWord_ne` : a match between word boundaries,
* `Matches.congr` : a pattern without boundaries does not look around.
-/

namespace Regex

variable {α : Type*}

/-- Patterns. A repetition prefers more; the one without an upper bound is of a class. -/
inductive Re (α : Type*) where
  | cls (p : α → Bool)
  | boundary
  | seq (r q : Re α)
  | alt (r q : Re α)
  | rep (r : Re α) (lo hi : ℕ)
  | many (p : α → Bool) (lo : ℕ)

section Context

variable (word : α → Bool)

/-- Does a word symbol stand first in `s`, or after it when it is empty. -/
def headWord : List α → Bool → Bool
  | [], a => a
  | c :: _, _ => word c

/-- Does a word symbol stand last in `s`, or before it when it is empty. -/
def lastWord : Bool → List α → Bool
  | b, [] => b
  | _, c :: s => lastWord (word c) s

@[simp] theorem headWord_nil (a : Bool) : headWord word [] a = a := rfl

@[simp] theorem headWord_cons (c : α) (s : List α) (a : Bool) :
    headWord word (c :: s) a = word c := rfl

@[simp] theorem lastWord_nil (b : Bool) : lastWord word b [] = b := rfl

@[simp] theorem lastWord_cons (b : Bool) (c : α) (s : List α) :
    lastWord word b (c :: s) = lastWord word (word c) s := rfl

theorem headWord_append (u v : List α) (a : Bool) :
    headWord word (u ++ v) a = headWord word u (headWord word v a) := by
  cases u with
  | nil => simp
  | cons c u => simp

theorem lastWord_append (b : Bool) (u v : List α) :
    lastWord word b (u ++ v) = lastWord word (lastWord word b u) v := by
  induction u generalizing b with
  | nil => simp
  | cons c u ih => simp [ih]

theorem headWord_congr {s : List α} (hs : s ≠ []) (a a' : Bool) :
    headWord word s a = headWord word s a' := by
  cases s with
  | nil => exact absurd rfl hs
  | cons c s => simp

/-! ## Matching by backtracking -/

/-- The ways of a matcher: what it takes, and what it leaves. -/
abbrev Matcher (α : Type*) := Bool → List α → List (List α × List α)

/-- One matcher after another: the later way of the second before the next way of the first. -/
def andThen (f g : Matcher α) : Matcher α := fun b s =>
  (f b s).flatMap fun x => (g (lastWord word b x.1) x.2).map fun y => (x.1 ++ y.1, y.2)

/-- A matcher at least `lo` and at most `hi` times, more before fewer. -/
def times (f : Matcher α) : ℕ → ℕ → Matcher α
  | lo, 0 => fun _ s => if lo = 0 then [([], s)] else []
  | lo, hi + 1 => fun b s =>
    andThen word f (times f (lo - 1) hi) b s ++ if lo = 0 then [([], s)] else []

/-- Symbols of a class, at least `lo`, more before fewer. -/
def takeMany (p : α → Bool) : ℕ → List α → List (List α × List α)
  | lo, [] => if lo = 0 then [([], [])] else []
  | lo, c :: s =>
    (if p c then (takeMany p (lo - 1) s).map fun y => (c :: y.1, y.2) else []) ++
      if lo = 0 then [([], c :: s)] else []

/-- One symbol of a class. -/
def takeOne (p : α → Bool) : List α → List (List α × List α)
  | [] => []
  | c :: s => if p c then [([c], s)] else []

/-- The ways in which a pattern matches, the preferred one first. -/
def run : Re α → Matcher α
  | .cls p => fun _ s => takeOne p s
  | .boundary => fun b s => if b ≠ headWord word s false then [([], s)] else []
  | .seq r q => andThen word (run r) (run q)
  | .alt r q => fun b s => run r b s ++ run q b s
  | .rep r lo hi => times word (run r) lo hi
  | .many p lo => fun _ s => takeMany p lo s

/-! ## What a match is -/

/-- A property of a text and of what stands before and after it. -/
abbrev Extent (α : Type*) := Bool → List α → Bool → Prop

/-- A text of one kind and then one of another. -/
def Then (P Q : Extent α) : Extent α := fun b w a =>
  ∃ u v, w = u ++ v ∧ P b u (headWord word v a) ∧ Q (lastWord word b u) v a

/-- Between `lo` and `hi` texts of one kind. -/
def Times (P : Extent α) : ℕ → ℕ → Extent α
  | lo, 0 => fun _ w _ => lo = 0 ∧ w = []
  | lo, hi + 1 => fun b w a => Then word P (Times P (lo - 1) hi) b w a ∨ lo = 0 ∧ w = []

/-- The pattern matches all of `w`, between the symbols that `b` and `a` tell of. -/
def Matches : Re α → Extent α
  | .cls p => fun _ w _ => ∃ c, w = [c] ∧ p c = true
  | .boundary => fun b w a => w = [] ∧ b ≠ a
  | .seq r q => Then word (Matches r) (Matches q)
  | .alt r q => fun b w a => Matches r b w a ∨ Matches q b w a
  | .rep r lo hi => Times word (Matches r) lo hi
  | .many p lo => fun _ w _ => lo ≤ w.length ∧ ∀ c ∈ w, p c = true

/-- A matcher lists the texts of a kind that stand first. -/
def Lists (f : Matcher α) (P : Extent α) : Prop :=
  ∀ b s w s', (w, s') ∈ f b s ↔ s = w ++ s' ∧ P b w (headWord word s' false)

variable {word}

theorem mem_takeOne {p : α → Bool} {s w s' : List α} :
    (w, s') ∈ takeOne p s ↔ s = w ++ s' ∧ ∃ c, w = [c] ∧ p c = true := by
  cases s with
  | nil =>
    simp only [takeOne, List.not_mem_nil, false_iff]
    rintro ⟨hs, c, rfl, -⟩
    simp at hs
  | cons d s =>
    change (w, s') ∈ (if p d = true then [([d], s)] else []) ↔ _
    by_cases hp : p d = true
    · rw [if_pos hp, List.mem_singleton, Prod.mk.injEq]
      constructor
      · rintro ⟨rfl, rfl⟩
        exact ⟨rfl, d, rfl, hp⟩
      · rintro ⟨hs, c, rfl, -⟩
        obtain ⟨rfl, rfl⟩ := List.cons.inj hs
        exact ⟨rfl, rfl⟩
    · rw [if_neg hp]
      simp only [List.not_mem_nil, false_iff]
      rintro ⟨hs, c, rfl, hc⟩
      obtain ⟨rfl, -⟩ := List.cons.inj hs
      exact hp hc

theorem mem_takeMany {p : α → Bool} {lo : ℕ} {s w s' : List α} :
    (w, s') ∈ takeMany p lo s ↔ s = w ++ s' ∧ lo ≤ w.length ∧ ∀ c ∈ w, p c = true := by
  induction s generalizing lo w with
  | nil =>
    unfold takeMany
    constructor
    · intro h
      by_cases hlo : lo = 0
      · rw [if_pos hlo, List.mem_singleton, Prod.mk.injEq] at h
        obtain ⟨rfl, rfl⟩ := h
        simp [hlo]
      · simp [hlo] at h
    · rintro ⟨hs, hlo, -⟩
      obtain ⟨rfl, rfl⟩ := List.append_eq_nil_iff.1 hs.symm
      simp [Nat.le_zero.1 hlo]
  | cons d s ih =>
    unfold takeMany
    -- either the first character is taken too, or the word ends before it
    rw [List.mem_append]
    constructor
    · rintro (h | h)
      · by_cases hp : p d = true
        · rw [if_pos hp, List.mem_map] at h
          obtain ⟨⟨v, t⟩, hv, heq⟩ := h
          rw [Prod.mk.injEq] at heq
          obtain ⟨rfl, rfl⟩ := heq
          obtain ⟨rfl, hlen, hall⟩ := ih.1 hv
          refine ⟨rfl, ?_, ?_⟩
          · change lo ≤ v.length + 1
            omega
          · intro c hc
            rcases List.mem_cons.1 hc with rfl | hc
            · exact hp
            · exact hall c hc
        · simp [hp] at h
      · by_cases hlo : lo = 0
        · rw [if_pos hlo, List.mem_singleton, Prod.mk.injEq] at h
          obtain ⟨rfl, rfl⟩ := h
          simp [hlo]
        · simp [hlo] at h
    · rintro ⟨hs, hlo, hall⟩
      cases w with
      | nil =>
        right
        rw [List.nil_append] at hs
        simp [Nat.le_zero.1 hlo, hs]
      | cons c w =>
        left
        obtain ⟨rfl, hs'⟩ := List.cons.inj hs
        rw [if_pos (hall d List.mem_cons_self), List.mem_map]
        refine ⟨(w, s'), ih.2 ⟨hs', ?_, fun c hc => hall c (List.mem_cons_of_mem _ hc)⟩, rfl⟩
        rw [List.length_cons] at hlo
        omega

theorem Lists.andThen {f g : Matcher α} {P Q : Extent α} (hf : Lists word f P)
    (hg : Lists word g Q) : Lists word (andThen word f g) (Then word P Q) := by
  intro b s w s'
  unfold Regex.andThen Then
  rw [List.mem_flatMap]
  constructor
  · rintro ⟨⟨u, t⟩, hu, h⟩
    rw [List.mem_map] at h
    obtain ⟨⟨v, t'⟩, hv, heq⟩ := h
    rw [Prod.mk.injEq] at heq
    obtain ⟨rfl, rfl⟩ := heq
    obtain ⟨rfl, hP⟩ := (hf _ _ _ _).1 hu
    obtain ⟨hst, hQ⟩ := (hg _ _ _ _).1 hv
    subst hst
    refine ⟨(List.append_assoc _ _ _).symm, u, v, rfl, ?_, hQ⟩
    rwa [headWord_append] at hP
  · rintro ⟨rfl, u, v, rfl, hP, hQ⟩
    refine ⟨(u, v ++ s'), (hf _ _ _ _).2 ⟨List.append_assoc _ _ _, ?_⟩, ?_⟩
    · rwa [headWord_append]
    · exact List.mem_map.2 ⟨(v, s'), (hg _ _ _ _).2 ⟨rfl, hQ⟩, rfl⟩

/-- The way that takes nothing, where it is allowed. -/
theorem mem_stop {lo : ℕ} {s w s' : List α} :
    (w, s') ∈ (if lo = 0 then [([], s)] else [] : List (List α × List α)) ↔
      s = w ++ s' ∧ lo = 0 ∧ w = [] := by
  by_cases hlo : lo = 0
  · rw [if_pos hlo, List.mem_singleton, Prod.mk.injEq]
    constructor
    · rintro ⟨rfl, rfl⟩
      exact ⟨rfl, hlo, rfl⟩
    · rintro ⟨hs, -, rfl⟩
      exact ⟨rfl, hs.symm⟩
  · simp [hlo]

theorem Lists.times {f : Matcher α} {P : Extent α} (hf : Lists word f P) (lo hi : ℕ) :
    Lists word (times word f lo hi) (Times word P lo hi) := by
  induction hi generalizing lo with
  | zero =>
    intro b s w s'
    exact mem_stop
  | succ hi ih =>
    intro b s w s'
    unfold Regex.times Times
    rw [List.mem_append, mem_stop, hf.andThen (ih (lo - 1)) b s w s']
    tauto

/-- The ways listed are the matches. -/
theorem run_spec (r : Re α) : Lists word (run word r) (Matches word r) := by
  induction r with
  | cls p => exact fun b s w s' => mem_takeOne
  | boundary =>
    intro b s w s'
    unfold run Matches
    by_cases hb : b ≠ headWord word s false
    · rw [if_pos hb, List.mem_singleton, Prod.mk.injEq]
      constructor
      · rintro ⟨rfl, rfl⟩
        exact ⟨rfl, rfl, hb⟩
      · rintro ⟨rfl, rfl, -⟩
        exact ⟨rfl, rfl⟩
    · rw [if_neg hb]
      simp only [List.not_mem_nil, false_iff]
      rintro ⟨rfl, rfl, hne⟩
      exact hb hne
  | seq r q ihr ihq => exact ihr.andThen ihq
  | alt r q ihr ihq =>
    intro b s w s'
    unfold run Matches
    rw [List.mem_append, ihr b s w s', ihq b s w s']
    tauto
  | rep r lo hi ih => exact ih.times lo hi
  | many p lo => exact fun b s w s' => mem_takeMany

end Context

/-! ## Symbols and lengths -/

namespace Re

/-- The symbols that a match can hold. -/
def allows : Re α → α → Bool
  | cls p, c => p c
  | boundary, _ => false
  | seq r q, c => allows r c || allows q c
  | alt r q, c => allows r c || allows q c
  | rep r _ _, c => allows r c
  | many p _, c => p c

/-- No match is shorter. -/
def minLen : Re α → ℕ
  | cls _ => 1
  | boundary => 0
  | seq r q => minLen r + minLen q
  | alt r q => min (minLen r) (minLen q)
  | rep r lo _ => lo * minLen r
  | many _ lo => lo

/-- The pattern looks at nothing around its match. -/
def unanchored : Re α → Bool
  | cls _ => true
  | boundary => false
  | seq r q => unanchored r && unanchored q
  | alt r q => unanchored r && unanchored q
  | rep r _ _ => unanchored r
  | many _ _ => true

/-- The pattern is written with a boundary at its end. -/
def endsAtBoundary : Re α → Bool
  | boundary => true
  | seq _ q => endsAtBoundary q
  | _ => false

end Re

section Facts

variable {word : α → Bool}

theorem Times.induct_on {P : Extent α} {motive : ℕ → List α → Prop}
    (stop : motive 0 []) (step : ∀ lo u v b a, P b u a → motive (lo - 1) v → motive lo (u ++ v))
    {lo hi : ℕ} {b : Bool} {w : List α} {a : Bool} (h : Times word P lo hi b w a) :
    motive lo w := by
  induction hi generalizing lo b w with
  | zero =>
    obtain ⟨rfl, rfl⟩ := h
    exact stop
  | succ hi ih =>
    rcases h with ⟨u, v, rfl, hu, hv⟩ | ⟨rfl, rfl⟩
    · exact step lo u v _ _ hu (ih hv)
    · exact stop

theorem Times.congr {P : Extent α}
    (hP : ∀ (w : List α) (b a : Bool), P b w a → ∀ b' a', P b' w a') {lo hi : ℕ} {b : Bool}
    {w : List α} {a : Bool} (h : Times word P lo hi b w a) (b' a' : Bool) :
    Times word P lo hi b' w a' := by
  induction hi generalizing lo b w b' with
  | zero => exact h
  | succ hi ih =>
    rcases h with ⟨u, v, rfl, hu, hv⟩ | h
    · exact Or.inl ⟨u, v, rfl, hP u _ _ hu _ _, ih hv _⟩
    · exact Or.inr h

/-- A match is over the symbols of the pattern. -/
theorem Matches.allows {r : Re α} {b a : Bool} {w : List α} (h : Matches word r b w a) :
    ∀ c ∈ w, r.allows c = true := by
  induction r generalizing b w a with
  | cls p =>
    obtain ⟨d, rfl, hd⟩ := h
    intro c hc
    rw [List.mem_singleton.1 hc]
    exact hd
  | boundary =>
    obtain ⟨rfl, -⟩ := h
    simp
  | seq r q ihr ihq =>
    obtain ⟨u, v, rfl, hu, hv⟩ := h
    intro c hc
    rcases List.mem_append.1 hc with hc | hc
    · simp [Re.allows, ihr hu c hc]
    · simp [Re.allows, ihq hv c hc]
  | alt r q ihr ihq =>
    intro c hc
    rcases h with h | h
    · simp [Re.allows, ihr h c hc]
    · simp [Re.allows, ihq h c hc]
  | rep r lo hi ih =>
    refine Times.induct_on (motive := fun _ w => ∀ c ∈ w, r.allows c = true) (by simp) ?_ h
    intro lo u v b a hu hv c hc
    rcases List.mem_append.1 hc with hc | hc
    · exact ih hu c hc
    · exact hv c hc
  | many p lo => exact h.2

/-- No match is shorter than `minLen`. -/
theorem Matches.minLen_le {r : Re α} {b a : Bool} {w : List α} (h : Matches word r b w a) :
    r.minLen ≤ w.length := by
  induction r generalizing b w a with
  | cls p =>
    obtain ⟨c, rfl, -⟩ := h
    simp [Re.minLen]
  | boundary => simp [Re.minLen]
  | seq r q ihr ihq =>
    obtain ⟨u, v, rfl, hu, hv⟩ := h
    rw [List.length_append]
    exact Nat.add_le_add (ihr hu) (ihq hv)
  | alt r q ihr ihq =>
    rcases h with h | h
    · exact Nat.le_trans (Nat.min_le_left _ _) (ihr h)
    · exact Nat.le_trans (Nat.min_le_right _ _) (ihq h)
  | rep r lo hi ih =>
    refine Times.induct_on (motive := fun lo w => lo * r.minLen ≤ w.length) (by simp) ?_ h
    intro lo u v b a hu hv
    have hlen := ih hu
    rw [List.length_append]
    cases lo with
    | zero => simp
    | succ lo =>
      rw [Nat.succ_mul]
      simp only [Nat.add_sub_cancel] at hv
      omega
  | many p lo => exact h.1

/-- A pattern without boundaries does not look around. -/
theorem Matches.congr {r : Re α} (hr : r.unanchored = true) {b a : Bool} {w : List α}
    (h : Matches word r b w a) (b' a' : Bool) : Matches word r b' w a' := by
  induction r generalizing b w a b' a' with
  | cls p => exact h
  | boundary => simp [Re.unanchored] at hr
  | seq r q ihr ihq =>
    simp only [Re.unanchored, Bool.and_eq_true] at hr
    obtain ⟨u, v, rfl, hu, hv⟩ := h
    exact ⟨u, v, rfl, ihr hr.1 hu _ _, ihq hr.2 hv _ _⟩
  | alt r q ihr ihq =>
    simp only [Re.unanchored, Bool.and_eq_true] at hr
    rcases h with h | h
    · exact Or.inl (ihr hr.1 h _ _)
    · exact Or.inr (ihq hr.2 h _ _)
  | rep r lo hi ih =>
    have hfree : ∀ (w : List α) (b a : Bool), Matches word r b w a →
        ∀ b' a', Matches word r b' w a' := fun w b a hw b' a' => ih hr hw b' a'
    exact Times.congr hfree h b' a'
  | many p lo => exact h

/-- A match that ends at a boundary. -/
theorem Matches.lastWord_ne {r : Re α} (hr : r.endsAtBoundary = true) {b a : Bool} {w : List α}
    (h : Matches word r b w a) : lastWord word b w ≠ a := by
  induction r generalizing b w with
  | boundary =>
    obtain ⟨rfl, hne⟩ := h
    exact hne
  | seq r q ihr ihq =>
    obtain ⟨u, v, rfl, -, hv⟩ := h
    rw [lastWord_append]
    exact ihq hr hv
  | cls p => simp [Re.endsAtBoundary] at hr
  | alt r q => simp [Re.endsAtBoundary] at hr
  | rep r lo hi => simp [Re.endsAtBoundary] at hr
  | many p lo => simp [Re.endsAtBoundary] at hr

/-- A match that starts at a boundary. -/
theorem Matches.headWord_ne {r : Re α} {b a : Bool} {w : List α}
    (h : Matches word (.seq .boundary r) b w a) : b ≠ headWord word w a := by
  obtain ⟨u, v, rfl, ⟨rfl, hne⟩, -⟩ := h
  simpa using hne

theorem matches_seq_cls {p : α → Bool} {r : Re α} {b a : Bool} {w : List α} :
    Matches word (.seq (.cls p) r) b w a ↔
      ∃ c v, w = c :: v ∧ p c = true ∧ Matches word r (word c) v a := by
  constructor
  · rintro ⟨u, v, rfl, ⟨c, rfl, hc⟩, h⟩
    exact ⟨c, v, rfl, hc, h⟩
  · rintro ⟨c, v, rfl, hc, h⟩
    exact ⟨[c], v, rfl, ⟨c, rfl, hc⟩, h⟩

end Facts

end Regex
