import LightTrack.Lib.Decimal
import Mathlib.Algebra.Order.Field.Basic
import Mathlib.Algebra.Order.Ring.Rat
import Mathlib.Data.List.DropRight
import Mathlib.Tactic.Common
import Mathlib.Tactic.FieldSimp
import Mathlib.Tactic.Positivity

/-! # Significant digits

A number is written in one way only by digits that neither start nor end with a zero and a power of
ten.

* `eq_append_zeros` : digits are the significant ones and the zeros after them,
* `eq_of_value_eq` : digits of one length and value are the same,
* `scaled_injective` : digits and exponent of a number are unique.
-/

namespace Decimal

theorem value_append (cs ds : List Char) :
    value (cs ++ ds) = value cs * 10 ^ ds.length + value ds := by
  unfold value
  rw [Nat.ofDigitChars_append, Nat.ofDigitChars_eq_ofDigitChars_zero]
  ring_nf

theorem value_zeros (k : ℕ) : value (List.replicate k '0') = 0 := by
  unfold value
  rw [Nat.ofDigitChars_replicate_zero, Nat.mul_zero]

/-- A zero before digits changes nothing. -/
theorem value_dropWhile_zero (cs : List Char) : value (cs.dropWhile (· == '0')) = value cs := by
  induction cs with
  | nil => simp
  | cons c cs ih =>
    by_cases hc : c = '0'
    · subst hc
      rw [List.dropWhile_cons_of_pos (by simp), ih, value_cons]
      simp
    · rw [List.dropWhile_cons_of_neg (by simpa using hc)]

/-- Digits are the significant ones and the zeros after them. -/
theorem eq_append_zeros (cs : List Char) :
    cs = cs.rdropWhile (· == '0') ++
      List.replicate (cs.length - (cs.rdropWhile (· == '0')).length) '0' := by
  have hsplit := List.takeWhile_append_dropWhile (p := (· == '0')) (l := cs.reverse)
  have hzeros : cs.reverse.takeWhile (· == '0') =
      List.replicate (cs.reverse.takeWhile (· == '0')).length '0' := by
    rw [List.eq_replicate_iff]
    refine ⟨by simp, ?_⟩
    intro c hc
    simpa using List.mem_takeWhile_imp hc
  have hlen : (cs.reverse.takeWhile (· == '0')).length =
      cs.length - (cs.rdropWhile (· == '0')).length := by
    have h := congrArg List.length hsplit
    rw [List.length_append, List.length_reverse] at h
    rw [List.rdropWhile, List.length_reverse]
    omega
  have hrev := congrArg List.reverse hsplit
  rw [List.reverse_append, List.reverse_reverse, hzeros, List.reverse_replicate, hlen] at hrev
  exact hrev.symm

theorem IsDigits.cons {c : Char} {cs : List Char} (h : IsDigits (c :: cs)) :
    c.isDigit = true ∧ IsDigits cs :=
  ⟨h c List.mem_cons_self, fun d hd => h d (List.mem_cons_of_mem _ hd)⟩

theorem value_singleton (c : Char) : value [c] = c.toNat - '0'.toNat := by
  rw [value_cons, value_nil, List.length_nil, Nat.pow_zero, Nat.one_mul, Nat.add_zero]

theorem digit_pos {c : Char} (hdigit : c.isDigit = true) (hc : c ≠ '0') :
    1 ≤ c.toNat - '0'.toNat := by
  have hrange := isDigit_toNat hdigit
  have hne : c.toNat ≠ '0'.toNat := fun h => hc (Char.toNat_inj.1 h)
  omega

/-- Digits of one length and one value are the same. -/
theorem eq_of_value_eq {cs cs' : List Char} (h : IsDigits cs) (h' : IsDigits cs')
    (hlen : cs.length = cs'.length) (hval : value cs = value cs') : cs = cs' := by
  induction cs generalizing cs' with
  | nil => exact (List.length_eq_zero_iff.1 hlen.symm).symm
  | cons c cs ih =>
    cases cs' with
    | nil => simp at hlen
    | cons c' cs' =>
      have hlen' : cs.length = cs'.length := by simpa using hlen
      have hc := isDigit_toNat h.cons.1
      have hc' := isDigit_toNat h'.cons.1
      have hv := value_lt h.cons.2
      have hv' := value_lt h'.cons.2
      rw [value_cons, value_cons, hlen'] at hval
      rw [hlen'] at hv
      -- a larger leading digit outweighs the rest
      have hle : ∀ {a b x y : ℕ}, x < 10 ^ cs'.length → 10 ^ cs'.length * a + y =
          10 ^ cs'.length * b + x → a ≤ b := by
        intro a b x y hx heq
        by_contra hlt
        have hprod : 10 ^ cs'.length * (b + 1) ≤ 10 ^ cs'.length * a :=
          Nat.mul_le_mul_left _ (by omega)
        rw [Nat.mul_add, Nat.mul_one] at hprod
        omega
      have hdigit : c.toNat - '0'.toNat = c'.toNat - '0'.toNat :=
        le_antisymm (hle hv' hval) (hle hv hval.symm)
      have hchar : c = c' := Char.toNat_inj.1 (by omega)
      rw [hdigit] at hval
      rw [hchar, ih h.cons.2 h'.cons.2 hlen' (by omega)]

/-- Digits that do not start with a zero are as many as their value takes. -/
theorem length_eq_of_value_eq {cs cs' : List Char} (h : IsDigits cs) (h' : IsDigits cs')
    (hhead : cs.head? ≠ some '0') (hhead' : cs'.head? ≠ some '0') (hval : value cs = value cs') :
    cs.length = cs'.length := by
  have hlow : ∀ {ds : List Char}, IsDigits ds → ds.head? ≠ some '0' → ds ≠ [] →
      10 ^ ds.length ≤ 10 * value ds := by
    intro ds hds hfirst hne
    cases ds with
    | nil => exact absurd rfl hne
    | cons c ds =>
      have hc : 1 ≤ c.toNat - '0'.toNat := digit_pos hds.cons.1 (by simpa using hfirst)
      have hprod : 10 ^ ds.length * 1 ≤ 10 ^ ds.length * (c.toNat - '0'.toNat) :=
        Nat.mul_le_mul_left _ hc
      rw [value_cons, List.length_cons, Nat.pow_succ]
      omega
  have hle : ∀ {ds ds' : List Char}, IsDigits ds → IsDigits ds' → ds.head? ≠ some '0' →
      value ds = value ds' → ds.length ≤ ds'.length := by
    intro ds ds' hds hds' hfirst heq
    by_cases hne : ds = []
    · simp [hne]
    · have hup := value_lt hds'
      have hdown := hlow hds hfirst hne
      have hlt : 10 ^ ds.length < 10 ^ (ds'.length + 1) := by
        rw [Nat.pow_succ]
        omega
      have := (Nat.pow_lt_pow_iff_right (by omega)).1 hlt
      omega
  exact le_antisymm (hle h h' hhead hval) (hle h' h hhead' hval.symm)

/-- The value of digits that do not end with a zero has no factor ten. -/
theorem not_dvd_value {cs : List Char} (h : IsDigits cs) (hne : cs ≠ [])
    (hlast : cs.getLast? ≠ some '0') : ¬ 10 ∣ value cs := by
  rcases List.eq_nil_or_concat cs with rfl | ⟨init, c, rfl⟩
  · exact absurd rfl hne
  · rw [List.concat_eq_append] at h hlast ⊢
    have hdigit : c.isDigit = true := h c (by simp)
    have hpos := digit_pos hdigit (by simpa using hlast)
    have hrange := isDigit_toNat hdigit
    rw [value_append, value_singleton, List.length_singleton, Nat.pow_one]
    omega

/-- Digits that neither start nor end with a zero. -/
structure IsSignificant (cs : List Char) : Prop where
  digits : IsDigits cs
  nonempty : cs ≠ []
  head : cs.head? ≠ some '0'
  last : cs.getLast? ≠ some '0'

/-- What is left between the zeros of digits is significant. -/
theorem isSignificant_trim {cs : List Char} (h : IsDigits cs)
    (hne : cs.dropWhile (· == '0') ≠ []) :
    IsSignificant ((cs.dropWhile (· == '0')).rdropWhile (· == '0')) := by
  have hfirst := List.rdropWhile_prefix (p := (· == '0')) (l := cs.dropWhile (· == '0'))
  have hhead : ∀ c, (cs.dropWhile (· == '0')).head? = some c → c ≠ '0' := by
    intro c hc
    have hfirst := List.head?_dropWhile_not (· == '0') cs
    rw [hc] at hfirst
    simpa using hfirst
  have hkept : (cs.dropWhile (· == '0')).rdropWhile (· == '0') ≠ [] := by
    rw [Ne, List.rdropWhile_eq_nil_iff]
    intro hall
    cases hdrop : cs.dropWhile (· == '0') with
    | nil => exact hne hdrop
    | cons c ds =>
      refine hhead c (by rw [hdrop, List.head?_cons]) ?_
      simpa using hall c (by rw [hdrop]; exact List.mem_cons_self)
  constructor
  · intro c hc
    exact h c ((List.dropWhile_suffix _).subset (hfirst.subset hc))
  · exact hkept
  · intro hzero
    rcases hfirst with ⟨rest, hrest⟩
    refine hhead '0' ?_ rfl
    rw [← hrest, List.head?_append, hzero, Option.some_or]
  · intro hzero
    have hlast := List.rdropWhile_last_not (· == '0') (cs.dropWhile (· == '0')) hkept
    rw [List.getLast?_eq_some_getLast hkept, Option.some.injEq] at hzero
    rw [hzero] at hlast
    simp at hlast

/-- The zeros around significant digits scale them. -/
theorem value_trim (cs : List Char) :
    value cs = value ((cs.dropWhile (· == '0')).rdropWhile (· == '0')) *
      10 ^ ((cs.dropWhile (· == '0')).length -
        ((cs.dropWhile (· == '0')).rdropWhile (· == '0')).length) := by
  have hsplit := congrArg value (eq_append_zeros (cs.dropWhile (· == '0')))
  rw [value_append, value_zeros, List.length_replicate, Nat.add_zero, value_dropWhile_zero] at hsplit
  exact hsplit

theorem IsSignificant.value_ne_zero {cs : List Char} (h : IsSignificant cs) : value cs ≠ 0 := by
  intro hzero
  have hdvd : 10 ∣ value cs := by
    rw [hzero]
    exact Nat.dvd_zero 10
  exact not_dvd_value h.digits h.nonempty h.last hdvd

/-- Digits without a significant one are zero. -/
theorem dropWhile_zero_eq_nil_iff {cs : List Char} (h : IsDigits cs) :
    cs.dropWhile (· == '0') = [] ↔ value cs = 0 := by
  constructor
  · intro hnil
    rw [← value_dropWhile_zero, hnil, value_nil]
  · intro hzero
    by_contra hne
    have hsig := isSignificant_trim h hne
    rw [value_trim] at hzero
    rcases Nat.mul_eq_zero.1 hzero with hval | hpow
    · exact hsig.value_ne_zero hval
    · exact absurd hpow (by positivity)

/-! ## Scaling -/

/-- **Digits and exponent of a number are unique.** -/
theorem scaled_injective {m m' : ℕ} {e e' : ℤ} (hm : ¬ 10 ∣ m) (hm' : ¬ 10 ∣ m')
    (h : (m : ℚ) * 10 ^ e = m' * 10 ^ e') : m = m' ∧ e = e' := by
  have hle : ∀ {a b : ℕ} {x y : ℤ}, ¬ 10 ∣ a → (a : ℚ) * 10 ^ x = b * 10 ^ y → y ≤ x := by
    intro a b x y ha heq
    by_contra hlt
    obtain ⟨k, hk⟩ : ∃ k : ℕ, y = x + (k + 1 : ℕ) := ⟨(y - x - 1).toNat, by omega⟩
    -- a larger exponent leaves a factor ten
    have hpow : (a : ℚ) = b * 10 ^ (k + 1) := by
      have hx : (10 : ℚ) ^ x ≠ 0 := zpow_ne_zero _ (by norm_num)
      rw [hk, zpow_add₀ (by norm_num), zpow_natCast] at heq
      apply mul_right_cancel₀ hx
      rw [heq]
      ring
    have hnat : a = b * 10 ^ (k + 1) := by exact_mod_cast hpow
    exact ha ⟨b * 10 ^ k, by rw [hnat, Nat.pow_succ]; ring⟩
  have heq : e = e' := le_antisymm (hle hm' h.symm) (hle hm h)
  subst heq
  have hne : (10 : ℚ) ^ e ≠ 0 := zpow_ne_zero _ (by norm_num)
  have hmm := mul_right_cancel₀ hne h
  exact ⟨by exact_mod_cast hmm, rfl⟩

/-- Significant digits with an exponent are determined by the number they denote. -/
theorem IsSignificant.unique {cs cs' : List Char} {e e' : ℤ} (h : IsSignificant cs)
    (h' : IsSignificant cs') (heq : (value cs : ℚ) * 10 ^ e = value cs' * 10 ^ e') :
    cs = cs' ∧ e = e' := by
  rcases scaled_injective (not_dvd_value h.digits h.nonempty h.last)
    (not_dvd_value h'.digits h'.nonempty h'.last) heq with ⟨hval, hexp⟩
  have hlen := length_eq_of_value_eq h.digits h'.digits h.head h'.head hval
  exact ⟨eq_of_value_eq h.digits h'.digits hlen hval, hexp⟩

end Decimal
