import Mathlib.Data.List.TakeWhile
import Mathlib.Data.String.Basic
import Mathlib.Tactic.Basic

/-! # The string operations the code uses

Rust's `str` methods on `String`, through its list of characters: Unicode `trim`,
`to_ascii_lowercase`, `split_once` and `trim_matches`.
-/

namespace LightTrack

/-- Unicode `White_Space`, the class `str::trim` removes. -/
def isWhite (c : Char) : Bool :=
  let n := c.toNat
  (9 ≤ n && n ≤ 13) || n == 0x20 || n == 0x85 || n == 0xA0 || n == 0x1680 ||
    (0x2000 ≤ n && n ≤ 0x200A) || n == 0x2028 || n == 0x2029 || n == 0x202F ||
    n == 0x205F || n == 0x3000

/-- Drop the characters satisfying `p` from both ends. -/
def trimChars (p : Char → Bool) (cs : List Char) : List Char :=
  ((cs.dropWhile p).reverse.dropWhile p).reverse

/-- `str::trim`. -/
def strTrim (s : String) : String := String.ofList (trimChars isWhite s.toList)

/-- `str::to_ascii_lowercase`. -/
def toAsciiLowercase (s : String) : String := String.ofList (s.toList.map Char.toLower)

/-- `str::to_lowercase`, as far as a comparison with an ASCII text can tell: besides the ASCII
capitals only the Kelvin sign has an ASCII lowercase. -/
def toLowercase (s : String) : String :=
  String.ofList (s.toList.map fun c => if c = '\u212A' then 'k' else c.toLower)

/-- `str::split_once` at a one-character separator. -/
def splitOnce (sep : Char) (s : String) : Option (String × String) :=
  let cs := s.toList
  if sep ∈ cs then
    some (String.ofList (cs.takeWhile (· != sep)), String.ofList ((cs.dropWhile (· != sep)).drop 1))
  else none

/-- `str::strip_prefix`. -/
def stripPrefix (pre s : String) : Option String :=
  if s.toList.take pre.toList.length = pre.toList then
    some (String.ofList (s.toList.drop pre.toList.length))
  else none

/-- Whether nothing is left after trimming. -/
def isBlank (s : String) : Bool := strTrim s == ""

/-- A text is split at its first separator. -/
theorem splitOnce_of_not_mem {sep : Char} {s : String} {a b : List Char}
    (hs : s.toList = a ++ sep :: b) (h : sep ∉ a) :
    splitOnce sep s = some (String.ofList a, String.ofList b) := by
  have hpass : ∀ c ∈ a, (c != sep) = true := by
    intro c hc
    rw [bne_iff_ne]
    rintro rfl
    exact h hc
  have hstop : ¬ (fun c => c != sep) sep = true := by simp
  unfold splitOnce
  rw [hs]
  simp only
  rw [if_pos (by simp), List.takeWhile_append_of_pos hpass,
    List.takeWhile_cons_of_neg (p := fun c => c != sep) hstop,
    List.dropWhile_append_of_pos hpass,
    List.dropWhile_cons_of_neg (p := fun c => c != sep) hstop, List.append_nil]
  rfl

/-- The parts of a split text make it up. -/
theorem splitOnce_toList {sep : Char} {s a b : String} (h : splitOnce sep s = some (a, b)) :
    s.toList = a.toList ++ sep :: b.toList := by
  unfold splitOnce at h
  simp only at h
  split_ifs at h with hmem
  simp only [Option.some.injEq, Prod.mk.injEq] at h
  rcases h with ⟨rfl, rfl⟩
  rw [String.toList_ofList, String.toList_ofList]
  conv_lhs => rw [← List.takeWhile_append_dropWhile (p := fun c => c != sep) (l := s.toList)]
  congr 1
  cases hdrop : s.toList.dropWhile fun c => c != sep with
  | nil =>
    -- a text without the separator is not split
    rw [List.dropWhile_eq_nil_iff] at hdrop
    have hne := hdrop sep hmem
    simp at hne
  | cons c cs =>
    have hc := List.head_dropWhile_not (fun c => c != sep)
      (hdrop.symm ▸ List.cons_ne_nil c cs : s.toList.dropWhile (fun c => c != sep) ≠ [])
    simp only [hdrop, List.head_cons, bne_eq_false_iff_eq] at hc
    rw [hc]
    rfl

theorem trimChars_eq_self {p : Char → Bool} {cs : List Char} (h : ∀ c ∈ cs, p c = false) :
    trimChars p cs = cs := by
  have hdrop : ∀ l : List Char, (∀ c ∈ l, p c = false) → l.dropWhile p = l := by
    intro l hl
    cases l with
    | nil => rfl
    | cons c l => exact List.dropWhile_cons_of_neg (by simp [hl c (List.mem_cons_self ..)])
  unfold trimChars
  rw [hdrop cs h, hdrop cs.reverse (fun c hc => h c (List.mem_reverse.1 hc)), List.reverse_reverse]

theorem mem_of_mem_trimChars {p : Char → Bool} {cs : List Char} {c : Char}
    (h : c ∈ trimChars p cs) : c ∈ cs := by
  unfold trimChars at h
  have h1 := (List.dropWhile_suffix p).subset (List.mem_reverse.1 h)
  exact (List.dropWhile_suffix p).subset (List.mem_reverse.1 h1)

/-- A character that is not trimmed stays. -/
theorem mem_trimChars {p : Char → Bool} {cs : List Char} {c : Char} (h : c ∈ cs)
    (hp : p c = false) : c ∈ trimChars p cs := by
  have hdrop : ∀ l : List Char, c ∈ l → c ∈ l.dropWhile p := by
    intro l hl
    rw [← List.takeWhile_append_dropWhile (p := p) (l := l)] at hl
    rcases List.mem_append.1 hl with htake | hrest
    · have hwhite := List.mem_takeWhile_imp htake
      rw [hp] at hwhite
      cases hwhite
    · exact hrest
  unfold trimChars
  exact List.mem_reverse.2 (hdrop _ (List.mem_reverse.2 (hdrop _ h)))

/-- A text with a character that is no white space is not blank. -/
theorem isBlank_eq_false_of_mem {s : String} {c : Char} (h : c ∈ s.toList)
    (hc : isWhite c = false) : isBlank s = false := by
  have hmem := mem_trimChars h hc
  refine beq_false_of_ne fun hempty => ?_
  have hnil := congrArg String.toList hempty
  unfold strTrim at hnil
  rw [String.toList_ofList] at hnil
  rw [hnil] at hmem
  cases hmem

/-- Trimming twice is trimming once. -/
theorem trimChars_trimChars (p : Char → Bool) (cs : List Char) :
    trimChars p (trimChars p cs) = trimChars p cs := by
  have hdd : ∀ l : List Char, (l.dropWhile p).dropWhile p = l.dropWhile p := by
    intro l
    induction l with
    | nil => rfl
    | cons c l ih =>
      by_cases hc : p c
      · simp [hc, ih]
      · simp [hc]
  -- the front stays trimmed when characters leave from the back
  have hfront : ∀ l : List Char, l.dropWhile p = l →
      (l.reverse.dropWhile p).reverse.dropWhile p = (l.reverse.dropWhile p).reverse := by
    intro l hl
    cases l with
    | nil => rfl
    | cons c l =>
      have hc : ¬ p c = true := by
        intro hc
        have hlen := congrArg List.length hl
        rw [List.dropWhile_cons_of_pos hc] at hlen
        have := (List.dropWhile_suffix p (l := l)).length_le
        simp only [List.length_cons] at hlen
        omega
      rw [List.reverse_cons, List.dropWhile_append]
      split_ifs with hempty
      · simp [hc]
      · simp [hc]
  unfold trimChars
  rw [hfront _ (hdd cs), List.reverse_reverse, hdd]

end LightTrack
