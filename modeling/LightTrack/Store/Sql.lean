import LightTrack.Store.Usage
import Mathlib.Algebra.Order.BigOperators.Group.List

/-! # The part of SQLite the queries rest on

A value read from a row has a storage class, and the typed getters of the driver
refuse the wrong one: `json_extract` yields whatever class the JSON value has,
and an integer sum that leaves `i64` turns into a REAL (in a row) or an error (in
an aggregate).

* `sumI64_eq_ok_iff` : when an integer aggregate can be read at all, and as what,
* `jsonExtract_eq_text_iff` : which JSON values read as a given text.
-/

namespace LightTrack

/-- Why the driver refuses a read. -/
inductive SqliteError where
  | invalidColumnType
  | integerOverflow
  deriving DecidableEq

/-- `StoreError`, as far as the modelled operations produce it. -/
inductive StoreError where
  | sqlite (e : SqliteError)
  | conflict (message : String)
  | other (message : String)
  deriving DecidableEq

/-- A column value. Only the storage class of a REAL matters: no getter of a text or an integer
accepts one. -/
inductive SqlValue where
  | null
  | integer (i : Int)
  | real
  | text (s : String)
  deriving DecidableEq

namespace SqlValue

/-- `row.get::<_, Option<String>>`. -/
def getOptString : SqlValue → Except SqliteError (Option String)
  | null => .ok none
  | text s => .ok (some s)
  | _ => .error .invalidColumnType

/-- `row.get::<_, i64>`. -/
def getI64 : SqlValue → Except SqliteError Int
  | integer i => .ok i
  | _ => .error .invalidColumnType

/-- `a + b` over INTEGER columns: an overflowing sum is a REAL. -/
def addI64 (a b : Int) : SqlValue := if InI64 (a + b) then integer (a + b) else real

@[simp] theorem getI64_integer (i : Int) : (integer i).getI64 = .ok i := rfl

/-- The text of a value, if it is text. -/
def asText : SqlValue → Option String
  | text s => some s
  | _ => none

/-- Whether `Option<String>` reads this value. -/
def IsTextual (v : SqlValue) : Prop := v = .null ∨ ∃ s, v = .text s

theorem getOptString_eq_ok_iff {v : SqlValue} {o : Option String} :
    v.getOptString = .ok o ↔ v.IsTextual ∧ o = v.asText := by
  cases v <;> simp [getOptString, IsTextual, asText, eq_comm]

theorem getOptString_of_textual {v : SqlValue} (h : v.IsTextual) :
    v.getOptString = .ok v.asText :=
  getOptString_eq_ok_iff.2 ⟨h, rfl⟩

theorem getOptString_error {v : SqlValue} (h : ¬ v.IsTextual) :
    v.getOptString = .error .invalidColumnType := by
  cases v <;> simp_all [getOptString, IsTextual]

instance : DecidablePred IsTextual
  | .null => .isTrue (.inl rfl)
  | .text s => .isTrue (.inr ⟨s, rfl⟩)
  | .integer _ => .isFalse (by simp [IsTextual])
  | .real => .isFalse (by simp [IsTextual])

end SqlValue

/-- `json_extract(metadata, '$.key')`. -/
def jsonExtract (metadata : Option Json) (key : String) : SqlValue :=
  match metadata.bind (Json.get key) with
  | none | some .null => .null
  | some (.bool b) => .integer (if b then 1 else 0)
  | some (.num (.int n)) => if InI64 n then .integer n else .real
  | some (.num (.float _)) => .real
  | some (.str s) => .text s
  | some j => .text j.render

/-- Whether a member is an array or an object, which `json_extract` renders as JSON text. -/
def Json.isComposite : Json → Bool
  | .arr _ | .obj _ => true
  | _ => false

theorem jsonExtract_eq_text_iff {metadata : Option Json} {key s : String} :
    jsonExtract metadata key = .text s ↔
      metadata.bind (Json.get key) = some (.str s) ∨
        ∃ j, metadata.bind (Json.get key) = some j ∧ j.isComposite = true ∧ j.render = s := by
  unfold jsonExtract
  cases hget : metadata.bind (Json.get key) with
  | none => simp
  | some j =>
    cases j with
    | null => simp [Json.isComposite]
    | bool b => simp [Json.isComposite]
    | num n =>
      cases n with
      | int n =>
        simp only [Json.isComposite]
        split_ifs <;> simp
      | float t => simp [Json.isComposite]
    | str s' => simp [Json.isComposite]
    | arr xs => simp [Json.isComposite]
    | obj fields => simp [Json.isComposite]

/-- The rendering of an array or an object starts with its bracket. -/
theorem render_isComposite {j : Json} (h : j.isComposite = true) :
    j.render.toList.head? = some '[' ∨ j.render.toList.head? = some '\x7b' := by
  cases j <;> simp [Json.isComposite] at h
  · left
    simp [Json.render, String.toList_append]
  · right
    simp [Json.render, String.toList_append]

/-! ## Integer aggregates -/

/-- `COALESCE(SUM(x), 0)` read as an `i64`, one term at a time. -/
def sumStep (acc : Int) : SqlValue → Except SqliteError Int
  | .null => .ok acc
  | .integer i => if InI64 (acc + i) then .ok (acc + i) else .error .integerOverflow
  | _ => .error .invalidColumnType

/-- `COALESCE(SUM(x), 0)` read as an `i64`. -/
def sumI64 (xs : List SqlValue) : Except SqliteError Int := xs.foldlM sumStep 0

/-- Every partial sum of `xs` from `acc` is an `i64`. -/
def PartialSumsFit : Int → List Int → Prop
  | _, [] => True
  | acc, x :: xs => InI64 (acc + x) ∧ PartialSumsFit (acc + x) xs

instance decidablePartialSumsFit : ∀ (acc : Int) (xs : List Int), Decidable (PartialSumsFit acc xs)
  | _, [] => .isTrue trivial
  | acc, x :: xs =>
    have := decidablePartialSumsFit (acc + x) xs
    inferInstanceAs (Decidable (_ ∧ _))

/-- Terms that are not negative and add up to an `i64` fit all the way. -/
theorem partialSumsFit_of_nonneg {acc : Int} {xs : List Int} (hacc : 0 ≤ acc)
    (hxs : ∀ x ∈ xs, 0 ≤ x) (hsum : acc + xs.sum < i64Bound) : PartialSumsFit acc xs := by
  induction xs generalizing acc with
  | nil => trivial
  | cons x xs ih =>
    have hx := hxs x (List.mem_cons_self ..)
    have hrest := fun y hy => hxs y (List.mem_cons_of_mem _ hy)
    have hpos : 0 ≤ xs.sum := List.sum_nonneg hrest
    rw [List.sum_cons] at hsum
    refine ⟨⟨?_, ?_⟩, ih (by omega) hrest (by omega)⟩
    · unfold i64Bound at *
      omega
    · omega

/-- Sums that fit on the way fit at the end. -/
theorem PartialSumsFit.inI64_sum {acc : Int} {xs : List Int} (hacc : InI64 acc)
    (h : PartialSumsFit acc xs) : InI64 (acc + xs.sum) := by
  induction xs generalizing acc with
  | nil => simpa using hacc
  | cons x xs ih =>
    rw [List.sum_cons, ← add_assoc]
    exact ih h.1 h.2

theorem foldlM_sumStep_eq_ok_iff {acc n : Int} {xs : List SqlValue} {is : List Int}
    (hxs : xs = is.map .integer) :
    xs.foldlM sumStep acc = .ok n ↔ PartialSumsFit acc is ∧ n = acc + is.sum := by
  induction is generalizing acc xs with
  | nil => simp [hxs, PartialSumsFit, pure, Except.pure, eq_comm]
  | cons i is ih =>
    rw [hxs, List.map_cons, List.foldlM_cons]
    by_cases hfit : InI64 (acc + i)
    · simp only [sumStep, bind, Except.bind, PartialSumsFit, hfit, true_and,
        List.sum_cons]
      rw [← add_assoc]
      exact ih rfl
    · simp [sumStep, hfit, bind, Except.bind, PartialSumsFit]

/-- Over integer terms the aggregate reads exactly when every partial sum fits, and it reads as
the sum. -/
theorem sumI64_eq_ok_iff {n : Int} (is : List Int) :
    sumI64 (is.map .integer) = .ok n ↔ PartialSumsFit 0 is ∧ n = is.sum := by
  have h : (is.map .integer).foldlM sumStep 0 = .ok n ↔ PartialSumsFit 0 is ∧ n = 0 + is.sum :=
    foldlM_sumStep_eq_ok_iff rfl
  rw [zero_add] at h
  exact h

theorem sumI64_map_eq_ok_iff {α : Type*} {n : Int} (f : α → Int) (l : List α) :
    sumI64 (l.map fun a => .integer (f a)) = .ok n ↔
      PartialSumsFit 0 (l.map f) ∧ n = (l.map f).sum := by
  rw [← sumI64_eq_ok_iff, List.map_map]
  rfl

/-- A term that is no integer spoils the aggregate. -/
theorem sumI64_of_real {xs : List SqlValue} (h : SqlValue.real ∈ xs) : ∃ e, sumI64 xs = .error e := by
  suffices hacc : ∀ acc : Int, ∃ e, xs.foldlM sumStep acc = .error e from hacc 0
  induction xs with
  | nil => simp at h
  | cons x xs ih =>
    intro acc
    rw [List.foldlM_cons]
    rcases List.mem_cons.1 h with rfl | h
    · exact ⟨.invalidColumnType, rfl⟩
    · cases hx : sumStep acc x with
      | error e => exact ⟨e, rfl⟩
      | ok acc' => exact ih h acc'

end LightTrack
