import LightTrack.Core.Event
import LightTrack.Core.Text
import Mathlib.Algebra.Order.Ring.Rat
import Mathlib.Data.Nat.Cast.Order.Ring
import Mathlib.Data.Prod.Lex
import Mathlib.Data.String.Basic

/-! # Collective entries

What one contributor reports of one `(provider, model, task_type)`, and the closed vocabularies its
tags are drawn from.

* `Coverage.fold`, `weakestDeterminism` : how the tags of several reports combine; both are
  commutative and idempotent, so a fold over many depends on which tags there are and not on their
  order (`Coverage.fold_right_comm`, `weakest_right_comm`).
-/

namespace LightTrack

/-! ## Coverage -/

/-- How uniformly a fact holds across the sources. -/
inductive Coverage where
  | all
  | mixed
  | none
  | unknown
  deriving DecidableEq, Repr

namespace Coverage

/-- `Coverage::fold`: agreement survives. -/
def fold (a b : Coverage) : Coverage := if a = b then a else mixed

@[simp] theorem fold_self (a : Coverage) : a.fold a = a := if_pos rfl

theorem fold_comm (a b : Coverage) : a.fold b = b.fold a := by
  cases a <;> cases b <;> rfl

theorem fold_right_comm (a b c : Coverage) : (a.fold b).fold c = (a.fold c).fold b := by
  cases a <;> cases b <;> cases c <;> rfl

end Coverage

/-! ## Determinism stamps -/

/-- The determinism vocabulary, strongest first. -/
def DETERMINISM_LEVELS : List String := ["exact", "best-effort", "sampled"]

/-- `canon_determinism` -/
def canonDeterminism (s : String) : Option String :=
  DETERMINISM_LEVELS.find? fun l => l == toLowercase (strTrim s)

/-- `rank`: unknown labels are weakest. -/
def rank (s : String) : ℕ :=
  if s = "exact" then 2 else if s = "best-effort" then 1 else 0

/-- `weakest_determinism`: an unrecorded stamp absorbs. -/
def weakestDeterminism : Option String → Option String → Option String
  | some a, some b => some (if rank a ≤ rank b then a else b)
  | _, _ => none

/-- A recorded stamp is of the vocabulary. -/
def Canonical (d : Option String) : Prop := ∀ s ∈ d, s ∈ DETERMINISM_LEVELS

instance (d : Option String) : Decidable (Canonical d) :=
  inferInstanceAs (Decidable (∀ s ∈ d, s ∈ DETERMINISM_LEVELS))

theorem canonical_canonDeterminism (s : String) : Canonical (canonDeterminism s) :=
  fun _ h => List.mem_of_find?_eq_some h

/-- Within the vocabulary a stamp is its rank. -/
theorem eq_of_rank_eq {a b : String} (ha : a ∈ DETERMINISM_LEVELS) (hb : b ∈ DETERMINISM_LEVELS)
    (h : rank a = rank b) : a = b := by
  have hinj : ∀ a ∈ DETERMINISM_LEVELS, ∀ b ∈ DETERMINISM_LEVELS, rank a = rank b → a = b := by
    decide +kernel
  exact hinj a ha b hb h

theorem weakest_comm {a b : Option String} (ha : Canonical a) (hb : Canonical b) :
    weakestDeterminism a b = weakestDeterminism b a := by
  rcases a with - | a
  · rcases b with - | b <;> rfl
  · rcases b with - | b
    · rfl
    · simp only [weakestDeterminism]
      congr 1
      rcases lt_trichotomy (rank a) (rank b) with h | h | h
      · rw [if_pos h.le, if_neg (not_le.2 h)]
      · rw [if_pos h.le, if_pos h.ge, eq_of_rank_eq (ha a rfl) (hb b rfl) h]
      · rw [if_neg (not_le.2 h), if_pos h.le]

/-- Two stamps of the vocabulary fold into any third in either order. -/
theorem weakest_right_comm {a b : Option String} (ha : Canonical a) (hb : Canonical b)
    (c : Option String) :
    weakestDeterminism (weakestDeterminism c a) b = weakestDeterminism (weakestDeterminism c b) a := by
  rcases c with - | c
  · rfl
  · rcases a with - | a
    · rcases b with - | b <;> rfl
    · rcases b with - | b
      · rfl
      · have heq : rank a = rank b → a = b := eq_of_rank_eq (ha a rfl) (hb b rfl)
        simp only [weakestDeterminism]
        congr 1
        split_ifs <;> first | rfl | omega | exact heq (by omega)

/-! ## Entries -/

/-- A stored `CollectiveEntry`. -/
structure CollectiveEntry where
  contributorId : String
  provider : String
  model : String
  taskType : String
  quality : ℚ
  passRate : ℚ
  avgCostUsd : ℚ
  p50LatencyMs : Option ℕ
  p95LatencyMs : Option ℕ
  nRuns : UInt32
  nCases : UInt32
  qualityVariance : Option ℚ
  judgeProvider : Option String
  rubricFingerprint : Option String
  determinism : Option String
  frozenDataset : Coverage
  significanceTested : Coverage
  receivedAt : Time
  deriving DecidableEq

/-- The key of a bucket: provider, model and task type, in this order. -/
abbrev Key := String ×ₗ String ×ₗ String

/-- `key_of` -/
def keyOf (provider model taskType : String) : Key := toLex (provider, toLex (model, taskType))

namespace CollectiveEntry

/-- The bucket an entry belongs to. -/
def key (e : CollectiveEntry) : Key := keyOf e.provider e.model e.taskType

/-- The evidence an entry rests on. -/
def cases (e : CollectiveEntry) : ℚ := e.nCases.toNat

/-- What the hub makes sure of before it stores an entry. -/
structure Sanitised (e : CollectiveEntry) : Prop where
  runs : 1 ≤ e.nRuns.toNat
  runs_le : e.nRuns.toNat ≤ e.nCases.toNat
  quality : 0 ≤ e.quality ∧ e.quality ≤ 1
  passRate : 0 ≤ e.passRate ∧ e.passRate ≤ 1
  cost : 0 ≤ e.avgCostUsd
  variance : ∀ v ∈ e.qualityVariance, 0 ≤ v
  determinism : Canonical e.determinism

theorem Sanitised.cases_pos {e : CollectiveEntry} (h : e.Sanitised) : 0 < e.cases := by
  have hle := h.runs.trans h.runs_le
  unfold cases
  exact_mod_cast hle

theorem cases_nonneg (e : CollectiveEntry) : 0 ≤ e.cases := Nat.cast_nonneg _

end CollectiveEntry

end LightTrack
