import LightTrack.Lib.Regex
import Mathlib.Data.List.Count

/-! # Replacing every match by a placeholder

A text is read from the left: where the pattern matches, the preferred match is one piece and the
reading goes on behind it, elsewhere one symbol is kept. A placeholder is a body between two
markers.

* `Pattern.scan_scanned` : the pieces are matches, and symbols where none starts,
* `Scanned.clean_replaceWith` : what is clean of another pattern, or has been read for the pattern
  itself, is clean of it with the placeholders in place,
* `Scanned.marker_kept` : a placeholder that stands in the text is kept symbol by symbol,
* `Scanned.count_le` : every replacement adds an opening marker.
-/

namespace Regex

variable {α : Type*}

/-- A pattern that matches no empty text. -/
structure Pattern (α : Type*) where
  re : Re α
  nonempty : 0 < re.minLen

/-- A piece of a text that was read: a symbol, or a match. -/
inductive Piece (α : Type*) where
  | kept (c : α)
  | found (w : List α)
  deriving DecidableEq

/-- The text the pieces were read from. -/
def source : List (Piece α) → List α
  | [] => []
  | .kept c :: ps => c :: source ps
  | .found w :: ps => w ++ source ps

/-- The text with `ph` for every match. -/
def replaceWith (ph : List α) : List (Piece α) → List α
  | [] => []
  | .kept c :: ps => c :: replaceWith ph ps
  | .found _ :: ps => ph ++ replaceWith ph ps

/-- The matches among the pieces. -/
def matchesOf : List (Piece α) → List (List α)
  | [] => []
  | .kept _ :: ps => matchesOf ps
  | .found w :: ps => w :: matchesOf ps

/-- A placeholder: a body between an opening and a closing symbol. -/
structure Marker (α : Type*) where
  opening : α
  body : List α
  closing : α

def Marker.text (m : Marker α) : List α := m.opening :: (m.body ++ [m.closing])

section Scan

variable (word : α → Bool)

/-- Reads a text of at most `n` symbols. -/
def scanFrom (r : Re α) : ℕ → Bool → List α → List (Piece α)
  | 0, _, _ => []
  | _ + 1, _, [] => []
  | n + 1, b, c :: s =>
    match (run word r b (c :: s)).head? with
    | some (w, s') => .found w :: scanFrom r n (lastWord word b w) s'
    | none => .kept c :: scanFrom r n (word c) s

/-- Reads a text from its start. -/
def Pattern.scan (r : Pattern α) (s : List α) : List (Piece α) :=
  scanFrom word r.re s.length false s

/-- No match of `r` starts with the first symbol of `s`. -/
def NoStart (r : Re α) (b : Bool) (s : List α) : Prop :=
  ∀ w v, s = w ++ v → ¬ Matches word r b w (headWord word v false)

/-- No match of `r` lies anywhere in `s`. -/
def Clean (r : Re α) (b : Bool) (s : List α) : Prop :=
  ∀ u w v, s = u ++ w ++ v → ¬ Matches word r (lastWord word b u) w (headWord word v false)

/-- A text in pieces: matches of `r`, and symbols where no match of `q` starts. -/
inductive Scanned (r q : Re α) : Bool → List α → List (Piece α) → Prop
  | nil (b : Bool) : Scanned r q b [] []
  | miss {b : Bool} {c : α} {s : List α} {ps : List (Piece α)} :
      NoStart word q b (c :: s) → Scanned r q (word c) s ps → Scanned r q b (c :: s) (.kept c :: ps)
  | hit {b : Bool} {w s : List α} {ps : List (Piece α)} :
      w ≠ [] → Matches word r b w (headWord word s false) → Scanned r q (lastWord word b w) s ps →
      Scanned r q b (w ++ s) (.found w :: ps)

variable {word}

theorem Matches.ne_nil {r : Re α} (hr : 0 < r.minLen) {b a : Bool} {w : List α}
    (h : Matches word r b w a) : w ≠ [] := by
  rintro rfl
  have := h.minLen_le
  rw [List.length_nil] at this
  omega

theorem scanFrom_scanned {r : Re α} (hr : 0 < r.minLen) {n : ℕ} {b : Bool} {s : List α}
    (hn : s.length ≤ n) : Scanned word r r b s (scanFrom word r n b s) := by
  induction n generalizing b s with
  | zero =>
    rw [List.length_eq_zero_iff.1 (Nat.le_zero.1 hn)]
    exact .nil b
  | succ n ih =>
    cases s with
    | nil => exact .nil b
    | cons c s =>
      rw [List.length_cons] at hn
      unfold scanFrom
      cases hrun : (run word r b (c :: s)).head? with
      | none =>
        rw [List.head?_eq_none_iff] at hrun
        refine .miss ?_ (ih (by omega))
        intro w v hs hw
        have hmem := (run_spec r b (c :: s) w v).2 ⟨hs, hw⟩
        rw [hrun] at hmem
        simp at hmem
      | some x =>
        obtain ⟨w, s'⟩ := x
        obtain ⟨hs, hw⟩ := (run_spec r b (c :: s) w s').1 (List.mem_of_mem_head? hrun)
        have hne := hw.ne_nil hr
        have hlen := congrArg List.length hs
        have hpos := List.length_pos_of_ne_nil hne
        rw [List.length_cons, List.length_append] at hlen
        rw [hs]
        exact .hit hne hw (ih (by omega))

theorem Pattern.scan_scanned (r : Pattern α) (s : List α) :
    Scanned word r.re r.re false s (r.scan word s) :=
  scanFrom_scanned r.nonempty (Nat.le_refl _)

/-! ## Clean texts -/

theorem Clean.noStart {r : Re α} {b : Bool} {s : List α} (h : Clean word r b s) :
    NoStart word r b s := fun w v hs => h [] w v hs

theorem Clean.drop {r : Re α} {b : Bool} {u s : List α} (h : Clean word r b (u ++ s)) :
    Clean word r (lastWord word b u) s := by
  rintro t w v rfl hw
  rw [← lastWord_append] at hw
  exact h (u ++ t) w v (by simp) hw

theorem Clean.tail {r : Re α} {b : Bool} {c : α} {s : List α} (h : Clean word r b (c :: s)) :
    Clean word r (word c) s :=
  Clean.drop (u := [c]) h

theorem clean_nil {r : Re α} (hr : 0 < r.minLen) (b : Bool) : Clean word r b [] := by
  intro u w v hs hw
  have hnil := List.append_eq_nil_iff.1 hs.symm
  exact hw.ne_nil hr (List.append_eq_nil_iff.1 hnil.1).2

theorem clean_cons {r : Re α} {b : Bool} {c : α} {s : List α} (hstart : NoStart word r b (c :: s))
    (h : Clean word r (word c) s) : Clean word r b (c :: s) := by
  intro u w v hs hw
  cases u with
  | nil => exact hstart w v hs hw
  | cons d u =>
    obtain ⟨rfl, htail⟩ := List.cons.inj hs
    exact h u w v htail hw

/-- A part without the symbol `x` lies before it or behind it. -/
theorem before_or_behind {u w v p q : List α} {x : α} (h : u ++ w ++ v = p ++ x :: q)
    (hx : x ∉ w) : (∃ t, p = u ++ w ++ t) ∨ ∃ t, u = p ++ x :: t ∧ q = t ++ w ++ v := by
  rcases List.append_eq_append_iff.1 h with ⟨t, hp, -⟩ | ⟨t, huw, hxq⟩
  · exact Or.inl ⟨t, hp⟩
  · cases t with
    | nil =>
      left
      exact ⟨[], by simpa using huw.symm⟩
    | cons d t =>
      obtain ⟨rfl, rfl⟩ := List.cons.inj hxq
      rcases List.append_eq_append_iff.1 huw with ⟨t', hp, hw⟩ | ⟨t', hu, ht⟩
      · exact absurd (hw ▸ by simp) hx
      · cases t' with
        | nil =>
          rw [List.nil_append] at ht
          exact absurd (ht ▸ List.mem_cons_self) hx
        | cons e t' =>
          obtain ⟨rfl, rfl⟩ := List.cons.inj ht
          exact Or.inr ⟨t', hu, rfl⟩

/-! ## Placeholders -/

variable (word) in
/-- The pattern matches nothing of a placeholder, and the markers are no word symbols. -/
structure Foreign (m : Marker α) (r : Re α) : Prop where
  opening : word m.opening = false
  closing : word m.closing = false
  notOpening : ∀ {b w a}, Matches word r b w a → m.opening ∉ w
  notClosing : ∀ {b w a}, Matches word r b w a → m.closing ∉ w
  notBody : ∀ {b w a}, Matches word r b w a → ¬ w <:+: m.body

/-- A placeholder before a clean text. -/
theorem Foreign.clean_append {m : Marker α} {r : Re α} (hm : Foreign word m r)
    (hr : 0 < r.minLen) {b : Bool} {s : List α} (h : Clean word r false s) :
    Clean word r b (m.text ++ s) := by
  intro u w v hs hw
  have htext : u ++ w ++ v = [] ++ m.opening :: (m.body ++ m.closing :: s) := by
    rw [← hs]
    simp [Marker.text]
  rcases before_or_behind htext (hm.notOpening hw) with ⟨t, ht⟩ | ⟨t, hut, ht⟩
  · -- nothing stands before the opening symbol
    have hnil := List.append_eq_nil_iff.1 ht.symm
    exact hw.ne_nil hr (List.append_eq_nil_iff.1 hnil.1).2
  · rcases before_or_behind ht.symm (hm.notClosing hw) with ⟨t', hbody⟩ | ⟨t', hu, hs'⟩
    · exact hm.notBody hw ⟨t, t', hbody.symm⟩
    · have hlast : lastWord word b u = lastWord word false t' := by
        rw [hut, hu]
        simp [lastWord_append, hm.closing]
      exact h t' w v hs' (hlast ▸ hw)

/-! ## What a replacement does to its surroundings -/

variable (word) in
/-- Where a match of `r` gives way to a symbol that is no word symbol, a match of `q` beside it
was one before. -/
structure Undisturbed (r q : Re α) : Prop where
  left : ∀ {b n w a}, n ≠ [] → w ≠ [] → Matches word r b n (headWord word w a) →
    Matches word q false w a → Matches word q (lastWord word b n) w a
  right : ∀ {b w n a}, w ≠ [] → n ≠ [] → Matches word r (lastWord word b w) n a →
    Matches word q b w false → Matches word q b w (headWord word n a)

/-- Read before a clean text, the same pieces are no place where a match of `q` starts. -/
theorem Scanned.of_clean {r q : Re α} {b : Bool} {s : List α} {ps : List (Piece α)}
    (h : Scanned word r r b s ps) (hclean : Clean word q b s) : Scanned word r q b s ps := by
  induction h with
  | nil b => exact .nil b
  | miss _ _ ih => exact .miss hclean.noStart (ih hclean.tail)
  | hit hne hw _ ih => exact .hit hne hw (ih hclean.drop)

/-- What stands first in the new text stood first in the old one, and what followed it is the same
or was a match. -/
theorem Scanned.leading {r q : Re α} {m : Marker α} (hm : Foreign word m q) {b : Bool}
    {s : List α} {ps : List (Piece α)} (h : Scanned word r q b s ps) {w v : List α}
    (hv : replaceWith m.text ps = w ++ v) (hw : m.opening ∉ w) :
    ∃ s', s = w ++ s' ∧ (headWord word v false = headWord word s' false ∨
      headWord word v false = false ∧ ∃ n t, s' = n ++ t ∧ n ≠ [] ∧
        Matches word r (lastWord word b w) n (headWord word t false)) := by
  induction h generalizing w with
  | nil b =>
    obtain ⟨rfl, rfl⟩ := List.append_eq_nil_iff.1 hv.symm
    exact ⟨[], rfl, Or.inl rfl⟩
  | @miss b c s ps _ _ ih =>
    cases w with
    | nil => exact ⟨c :: s, rfl, Or.inl (by rw [← List.nil_append v, ← hv]; rfl)⟩
    | cons d w =>
      obtain ⟨rfl, hv'⟩ := List.cons.inj hv
      obtain ⟨s', rfl, hs'⟩ := ih hv' (fun h => hw (List.mem_cons_of_mem _ h))
      exact ⟨s', rfl, hs'⟩
  | @hit b n s ps hne hn _ ih =>
    cases w with
    | nil =>
      have hfirst : headWord word v false = false := by
        rw [← List.nil_append v, ← hv]
        exact hm.opening
      exact ⟨n ++ s, rfl, Or.inr ⟨hfirst, n, s, rfl, hne, hn⟩⟩
    | cons d w =>
      obtain ⟨rfl, -⟩ := List.cons.inj hv
      exact absurd List.mem_cons_self hw

/-- With placeholders in place, a text is clean of a pattern that started nowhere outside the
matches. What stands before it is as it was, or was a match that has given way. -/
theorem Scanned.clean_replaceWith {r q : Re α} {m : Marker α} (hm : Foreign word m q)
    (hq : 0 < q.minLen) (hrq : Undisturbed word r q) {b b' : Bool} {s : List α}
    {ps : List (Piece α)} (h : Scanned word r q b s ps)
    (hb : b' = b ∨ b' = false ∧ ∃ b₀ n, b = lastWord word b₀ n ∧ n ≠ [] ∧
      Matches word r b₀ n (headWord word s false)) :
    Clean word q b' (replaceWith m.text ps) := by
  induction h generalizing b' with
  | nil b => exact clean_nil hq b'
  | @miss b c s ps hmiss hrest ih =>
    refine clean_cons ?_ (ih (Or.inl rfl))
    intro w v hwv hw
    cases w with
    | nil => exact hw.ne_nil hq rfl
    | cons d w =>
      obtain ⟨rfl, hv⟩ := List.cons.inj hwv
      have hopen : m.opening ∉ w := fun h => hm.notOpening hw (List.mem_cons_of_mem _ h)
      obtain ⟨s', rfl, hright⟩ := hrest.leading hm hv hopen
      -- what follows the match now followed it before, or gave way
      have hold : Matches word q b' (c :: w) (headWord word s' false) := by
        rcases hright with heq | ⟨hfalse, n, t, rfl, hne, hn⟩
        · rwa [heq] at hw
        · rw [hfalse] at hw
          rw [headWord_append, headWord_congr _ hne _ (headWord word t false)]
          exact hrq.right (by simp) hne hn hw
      -- and so with what stands before it
      rcases hb with rfl | ⟨rfl, b₀, n, rfl, hne, hn⟩
      · exact hmiss (c :: w) s' rfl hold
      · exact hmiss (c :: w) s' rfl (hrq.left hne (by simp) hn hold)
  | @hit b n s ps hne hn _ ih =>
    exact hm.clean_append hq (ih (Or.inr ⟨rfl, b, n, rfl, hne, hn⟩))

variable (word) in
/-- The pattern ends at a boundary, and starts at one or with no word symbol. -/
inductive Anchored : Re α → Prop
  | boundary {r : Re α} : r.endsAtBoundary = true → Anchored (.seq .boundary r)
  | cls {p : α → Bool} {r : Re α} : (∀ c, p c = true → word c = false) →
      r.endsAtBoundary = true → Anchored (.seq (.cls p) r)

theorem Anchored.endsAtBoundary {r : Re α} (h : Anchored word r) : r.endsAtBoundary = true := by
  cases h with
  | boundary hr => exact hr
  | cls _ hr => exact hr

/-- No word symbol stands before a match that starts with one. -/
theorem Anchored.before {r : Re α} (h : Anchored word r) {b a : Bool} {w : List α}
    (hw : Matches word r b w a) (hhead : headWord word w a = true) : b = false := by
  cases h with
  | boundary _ =>
    have hne := hw.headWord_ne
    rw [hhead] at hne
    exact eq_false_of_ne_true hne
  | cls hp _ =>
    obtain ⟨c, v, rfl, hc, -⟩ := matches_seq_cls.1 hw
    rw [headWord_cons, hp c hc] at hhead
    exact absurd hhead Bool.false_ne_true

/-- No word symbol stands behind a match that ends with one. -/
theorem Anchored.behind {r : Re α} (h : Anchored word r) {b a : Bool} {w : List α}
    (hw : Matches word r b w a) (hlast : lastWord word b w = true) : a = false := by
  have hne := hw.lastWord_ne h.endsAtBoundary
  rw [hlast] at hne
  exact eq_false_of_ne_true (Ne.symm hne)

/-- A match that starts with no word symbol does not ask what stands before it, unless it asks
for a word symbol. -/
theorem Anchored.loosen {r : Re α} (h : Anchored word r) {b a : Bool} {w : List α}
    (hw : Matches word r false w a) (hhead : headWord word w a = false) :
    Matches word r b w a := by
  cases h with
  | boundary _ => exact absurd hhead.symm hw.headWord_ne
  | cls _ _ => exact matches_seq_cls.2 (matches_seq_cls.1 hw)

/-- A pattern that looks at nothing is not disturbed by any other. -/
theorem undisturbed_of_unanchored {q : Re α} (hq : q.unanchored = true) (r : Re α) :
    Undisturbed word r q where
  left := fun _ _ _ hw => hw.congr hq _ _
  right := fun _ _ _ hw => hw.congr hq _ _

/-- Anchored patterns do not disturb each other. -/
theorem Anchored.undisturbed {r q : Re α} (hr : Anchored word r) (hq : Anchored word q) :
    Undisturbed word r q where
  left := by
    intro b n w a hn hw hold hmatch
    cases hlast : lastWord word b n with
    | false => exact hmatch
    | true =>
      -- the match ended with a word symbol, so none follows it
      exact hq.loosen hmatch (hr.behind hold hlast)
  right := by
    intro b w n a hw hn hold hmatch
    cases hhead : headWord word n a with
    | false => exact hmatch
    | true =>
      have hlast := hr.before hold hhead
      exact absurd hlast (hmatch.lastWord_ne hq.endsAtBoundary)

/-! ## Pieces -/

theorem matchesOf_append (ps qs : List (Piece α)) :
    matchesOf (ps ++ qs) = matchesOf ps ++ matchesOf qs := by
  induction ps with
  | nil => rfl
  | cons p ps ih =>
    cases p with
    | kept c => exact ih
    | found w => exact congrArg (w :: ·) ih

/-- The pieces make up the text. -/
theorem Scanned.source_eq {r q : Re α} {b : Bool} {s : List α} {ps : List (Piece α)}
    (h : Scanned word r q b s ps) : source ps = s := by
  induction h with
  | nil b => rfl
  | miss _ _ ih => exact congrArg (_ :: ·) ih
  | hit _ _ _ ih => exact congrArg (_ ++ ·) ih

/-- Every match found is one. -/
theorem Scanned.matches {r q : Re α} {b : Bool} {s : List α} {ps : List (Piece α)}
    (h : Scanned word r q b s ps) {w : List α} (hw : w ∈ matchesOf ps) :
    ∃ b a, Matches word r b w a := by
  induction h with
  | nil b => simp [matchesOf] at hw
  | miss _ _ ih => exact ih hw
  | hit _ hmatch _ ih =>
    rcases List.mem_cons.1 hw with rfl | hw
    · exact ⟨_, _, hmatch⟩
    · exact ih hw

theorem infix_source {ps : List (Piece α)} {w : List α} (hw : w ∈ matchesOf ps) :
    w <:+: source ps := by
  induction ps with
  | nil => simp [matchesOf] at hw
  | cons p ps ih =>
    cases p with
    | kept c => exact (ih hw).trans (List.suffix_cons c _).isInfix
    | found n =>
      rcases List.mem_cons.1 hw with rfl | hw
      · exact (List.prefix_append _ _).isInfix
      · exact (ih hw).trans (List.suffix_append n _).isInfix

/-- Pieces without a match are the symbols of the text. -/
theorem eq_map_kept {ps : List (Piece α)} (h : matchesOf ps = []) :
    ps = (source ps).map Piece.kept := by
  induction ps with
  | nil => rfl
  | cons p ps ih =>
    cases p with
    | kept c => exact congrArg (Piece.kept c :: ·) (ih h)
    | found w => simp [matchesOf] at h

theorem replaceWith_eq_source {ps : List (Piece α)} (h : matchesOf ps = []) (ph : List α) :
    replaceWith ph ps = source ps := by
  induction ps with
  | nil => rfl
  | cons p ps ih =>
    cases p with
    | kept c => exact congrArg (c :: ·) (ih h)
    | found w => simp [matchesOf] at h

/-- In a clean text nothing is found. -/
theorem Scanned.matchesOf_eq_nil {r q : Re α} {b : Bool} {s : List α} {ps : List (Piece α)}
    (h : Scanned word r q b s ps) (hclean : Clean word r b s) : matchesOf ps = [] := by
  induction h with
  | nil b => rfl
  | miss _ _ ih => exact ih hclean.tail
  | hit _ hw _ _ => exact absurd hw (hclean.noStart _ _ rfl)

/-- A symbol that no match holds divides the pieces. -/
theorem Scanned.split {r q : Re α} {x : α}
    (hx : ∀ {b w a}, Matches word r b w a → x ∉ w) {b : Bool} {s : List α} {ps : List (Piece α)}
    (h : Scanned word r q b s ps) {u v : List α} (hs : s = u ++ x :: v) :
    ∃ ps₁ ps₂, ps = ps₁ ++ .kept x :: ps₂ ∧ source ps₁ = u ∧ Scanned word r q (word x) v ps₂ := by
  induction h generalizing u with
  | nil b => simp at hs
  | @miss b c s ps _ hrest ih =>
    cases u with
    | nil =>
      obtain ⟨rfl, rfl⟩ := List.cons.inj hs
      exact ⟨[], ps, rfl, rfl, hrest⟩
    | cons d u =>
      obtain ⟨rfl, htail⟩ := List.cons.inj hs
      obtain ⟨ps₁, ps₂, rfl, hps, hv⟩ := ih htail
      exact ⟨.kept c :: ps₁, ps₂, rfl, congrArg (c :: ·) hps, hv⟩
  | @hit b n s ps hne hn _ ih =>
    have hsplit : [] ++ n ++ s = u ++ x :: v := hs
    rcases before_or_behind hsplit (hx hn) with ⟨t, rfl⟩ | ⟨t, hnil, -⟩
    · rw [List.nil_append] at hsplit ⊢
      rw [List.append_assoc, List.append_cancel_left_eq] at hsplit
      obtain ⟨ps₁, ps₂, rfl, hps, hv⟩ := ih hsplit
      exact ⟨.found n :: ps₁, ps₂, rfl, congrArg (n ++ ·) hps, hv⟩
    · simp at hnil

/-- A placeholder that stands in a text is kept symbol by symbol. -/
theorem Scanned.marker_kept {r q : Re α} {m : Marker α} (hm : Foreign word m r) {b : Bool}
    {u v : List α} {ps : List (Piece α)} (h : Scanned word r q b (u ++ m.text ++ v) ps) :
    ∃ ps₁ ps₂, ps = ps₁ ++ m.text.map Piece.kept ++ ps₂ ∧ source ps₁ = u ∧ source ps₂ = v := by
  obtain ⟨ps₁, rest, rfl, hu, hrest⟩ := h.split (x := m.opening) hm.notOpening
    (u := u) (v := m.body ++ m.closing :: v) (by simp [Marker.text])
  obtain ⟨body, ps₂, rfl, hbody, hv⟩ := hrest.split (x := m.closing) hm.notClosing rfl
  have hnone : matchesOf body = [] := by
    rw [List.eq_nil_iff_forall_not_mem]
    intro w hw
    obtain ⟨b', a', hmatch⟩ := hrest.matches (w := w)
      (by rw [matchesOf_append]; exact List.mem_append_left _ hw)
    exact hm.notBody hmatch (hbody ▸ infix_source hw)
  refine ⟨ps₁, ps₂, ?_, hu, hv.source_eq⟩
  rw [eq_map_kept hnone, hbody]
  simp [Marker.text]

/-- Every replacement adds an opening symbol. -/
theorem Scanned.count_le [DecidableEq α] {r q : Re α} {m : Marker α} (hm : Foreign word m r)
    {b : Bool} {s : List α} {ps : List (Piece α)} (h : Scanned word r q b s ps) :
    s.count m.opening + (matchesOf ps).length ≤ (replaceWith m.text ps).count m.opening := by
  induction h with
  | nil b => simp [matchesOf]
  | miss _ _ ih =>
    simp only [matchesOf, replaceWith, List.count_cons]
    omega
  | hit _ hn _ ih =>
    have hzero := List.count_eq_zero.2 (hm.notOpening hn)
    have hone : 1 ≤ m.text.count m.opening := List.one_le_count_iff.2 List.mem_cons_self
    simp only [matchesOf, replaceWith, List.count_append, List.length_cons, hzero]
    omega

end Scan

end Regex
