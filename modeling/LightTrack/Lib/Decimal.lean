import Mathlib.Data.String.Basic
import Mathlib.Tactic.Ring.RingNF

/-! # Decimals of a fixed width

Numbers padded with zeros to a width are ordered as text the way they are ordered as numbers, and
their digits read back as the number.

* `fixed` : the digits of a number, padded to a width,
* `value_fixed`, `fixed_length` : what they read back as, and how many they are,
* `lt_of_value_lt` : digits of one length are ordered as their values.
-/

namespace Decimal

/-- All characters are decimal digits. -/
def IsDigits (cs : List Char) : Prop := ∀ c ∈ cs, c.isDigit = true

/-- The number that digits spell. -/
def value (cs : List Char) : ℕ := Nat.ofDigitChars 10 cs 0

@[simp] theorem value_nil : value [] = 0 := Nat.ofDigitChars_nil

theorem value_cons (c : Char) (cs : List Char) :
    value (c :: cs) = 10 ^ cs.length * (c.toNat - '0'.toNat) + value cs := by
  unfold value
  rw [Nat.ofDigitChars_cons, Nat.ofDigitChars_eq_ofDigitChars_zero]
  ring_nf

theorem isDigit_toNat {c : Char} (h : c.isDigit = true) :
    '0'.toNat ≤ c.toNat ∧ c.toNat ≤ '0'.toNat + 9 := by
  simp only [Char.isDigit, Bool.and_eq_true, decide_eq_true_eq] at h
  have h1 : '0'.toNat ≤ c.toNat := h.1
  have h2 : c.toNat ≤ '9'.toNat := h.2
  exact ⟨h1, h2⟩

theorem value_lt {cs : List Char} (h : IsDigits cs) : value cs < 10 ^ cs.length := by
  induction cs with
  | nil => exact Nat.one_pos
  | cons c cs ih =>
    have hc := isDigit_toNat (h c (List.mem_cons_self ..))
    have hcs := ih fun c' hc' => h c' (List.mem_cons_of_mem _ hc')
    rw [value_cons, List.length_cons, Nat.pow_succ]
    have hdigit : c.toNat - '0'.toNat ≤ 9 := by omega
    have hprod : 10 ^ cs.length * (c.toNat - '0'.toNat) ≤ 10 ^ cs.length * 9 :=
      Nat.mul_le_mul_left _ hdigit
    omega

/-- Digits of one length are ordered as their values. -/
theorem lt_of_value_lt {cs cs' : List Char} (h : IsDigits cs) (h' : IsDigits cs')
    (hlen : cs.length = cs'.length) (hlt : value cs < value cs') : cs < cs' := by
  induction cs generalizing cs' with
  | nil =>
    rw [List.length_nil, eq_comm, List.length_eq_zero_iff] at hlen
    rw [hlen] at hlt
    omega
  | cons c cs ih =>
    cases cs' with
    | nil => simp at hlen
    | cons c' cs' =>
      have hlen' : cs.length = cs'.length := by simpa using hlen
      have hc := isDigit_toNat (h c (List.mem_cons_self ..))
      have hc' := isDigit_toNat (h' c' (List.mem_cons_self ..))
      have hcs : IsDigits cs := fun d hd => h d (List.mem_cons_of_mem _ hd)
      have hcs' : IsDigits cs' := fun d hd => h' d (List.mem_cons_of_mem _ hd)
      have hv := value_lt hcs'
      rw [value_cons, value_cons, hlen'] at hlt
      rw [List.cons_lt_cons_iff]
      rcases lt_trichotomy c.toNat c'.toNat with hlt' | heq | hgt
      · exact .inl hlt'
      · have hchar : c = c' := Char.toNat_inj.1 heq
        rw [hchar] at hlt ⊢
        exact .inr ⟨rfl, ih hcs hcs' hlen' (by omega)⟩
      · -- a larger leading digit outweighs the rest
        exfalso
        have hle : c'.toNat - '0'.toNat + 1 ≤ c.toNat - '0'.toNat := by omega
        have hprod : 10 ^ cs'.length * (c'.toNat - '0'.toNat + 1) ≤
            10 ^ cs'.length * (c.toNat - '0'.toNat) := Nat.mul_le_mul_left _ hle
        rw [Nat.mul_add, Nat.mul_one] at hprod
        omega

/-! ## Padding -/

/-- The digits of a number, padded with zeros to a width. -/
def fixed (width n : ℕ) : List Char :=
  List.replicate (width - (Nat.toDigits 10 n).length) '0' ++ Nat.toDigits 10 n

theorem fixed_length {width n : ℕ} (hwidth : 0 < width) (h : n < 10 ^ width) :
    (fixed width n).length = width := by
  have hle := (Nat.length_toDigits_le_iff (by omega) hwidth).2 h
  unfold fixed
  rw [List.length_append, List.length_replicate]
  omega

theorem isDigits_fixed (width n : ℕ) : IsDigits (fixed width n) := by
  intro c hc
  rcases List.mem_append.1 hc with hc | hc
  · rw [List.eq_of_mem_replicate hc]
    rfl
  · exact Nat.isDigit_of_mem_toDigits (by omega) le_rfl hc

@[simp] theorem value_fixed (width n : ℕ) : value (fixed width n) = n := by
  unfold value fixed
  rw [Nat.ofDigitChars_append, Nat.ofDigitChars_replicate_zero, Nat.mul_zero,
    Nat.ofDigitChars_ten_toDigits]

/-- Numbers of one width are ordered as text. -/
theorem fixed_lt {width n n' : ℕ} (hwidth : 0 < width) (hn' : n' < 10 ^ width) (hlt : n < n') :
    fixed width n < fixed width n' := by
  refine lt_of_value_lt (isDigits_fixed _ _) (isDigits_fixed _ _) ?_ ?_
  · rw [fixed_length hwidth (hlt.trans hn'), fixed_length hwidth hn']
  · rw [value_fixed, value_fixed]
    exact hlt

/-! ## Texts in blocks -/

/-- Texts that start with blocks of one length are ordered by these blocks first. -/
theorem append_lt_of_lt {a b x y : List Char} (hlen : a.length = b.length) (hlt : a < b) :
    a ++ x < b ++ y := by
  induction a generalizing b with
  | nil =>
    rw [List.length_nil, eq_comm, List.length_eq_zero_iff] at hlen
    rw [hlen] at hlt
    exact absurd hlt (lt_irrefl _)
  | cons c a ih =>
    cases b with
    | nil => simp at hlen
    | cons c' b =>
      rw [List.cons_append, List.cons_append, List.cons_lt_cons_iff]
      rcases List.cons_lt_cons_iff.1 hlt with h | ⟨rfl, h⟩
      · exact .inl h
      · exact .inr ⟨rfl, ih (by simpa using hlen) h⟩

/-! ## Reading -/

/-- Read `n` digits. -/
def read (n : ℕ) (cs : List Char) : Option (ℕ × List Char) :=
  if (cs.take n).length = n ∧ (cs.take n).all Char.isDigit then some (value (cs.take n), cs.drop n)
  else none

/-- What was padded reads back. -/
theorem read_fixed {width n : ℕ} (hwidth : 0 < width) (h : n < 10 ^ width) (cs : List Char) :
    read width (fixed width n ++ cs) = some (n, cs) := by
  have hlen := fixed_length hwidth h
  have htake : (fixed width n ++ cs).take width = fixed width n := by
    rw [List.take_append_of_le_length (by omega), List.take_of_length_le (by omega)]
  have hdrop : (fixed width n ++ cs).drop width = cs := by
    rw [List.drop_append_of_le_length (by omega), List.drop_of_length_le (by omega), List.nil_append]
  unfold read
  rw [htake, hdrop, if_pos ⟨hlen, List.all_eq_true.2 (isDigits_fixed _ _)⟩, value_fixed]

end Decimal
