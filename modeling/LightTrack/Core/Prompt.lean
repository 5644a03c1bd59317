import LightTrack.Core.Text
import LightTrack.Core.Clock
import LightTrack.Lib.OrdMap
import Mathlib.Algebra.Order.Field.Rat
import Mathlib.Data.List.TakeWhile
import Mathlib.Data.String.Basic

/-! # Prompts

A registry entry points labels at versions and keeps a bounded ledger of every move, oldest first.

* `labelMoves_moveLabel` : what a move does to the ledger of each label,
* `previousVersion_eq` : the version before the current one is read off the ledger.
-/

namespace LightTrack

/-- `MAX_LABEL_HISTORY`. -/
def MAX_LABEL_HISTORY : ℕ := 50

/-- `REASON_PROMOTE`. -/
def REASON_PROMOTE : String := "promote"

/-- `REASON_CANARY_REGRESSED`. -/
def REASON_CANARY_REGRESSED : String := "canary_regressed"

/-- One label move. -/
structure LabelChange where
  label : String
  version : UInt32
  at_ : Time
  reason : Option String
  deriving DecidableEq

/-- When a served canary version counts as having regressed against production. -/
structure CanaryPolicy where
  label : String
  productionLabel : String
  minN : UInt32
  windowSecs : UInt64
  maxDrop : ℚ
  autoRevert : Bool
  deriving DecidableEq

/-- `invalid`: why the policy cannot be used as written. -/
def CanaryPolicy.invalid (p : CanaryPolicy) : Option String :=
  if isBlank p.label || isBlank p.productionLabel then
    some "a canary policy needs both a canary label and a production label"
  else if p.label = p.productionLabel then
    some ("the canary label and the production label must differ — a label compared with " ++
      "itself can never regress")
  else if p.minN = 0 then
    some "min_n must be at least 1: a comparison over no verdicts is not a comparison"
  else if p.windowSecs = 0 then some "window_secs must be non-zero"
  else if ¬ (0 ≤ p.maxDrop ∧ p.maxDrop ≤ 1) then
    some "max_drop is a fraction of production's mean, so it lies in 0.0..=1.0"
  else none

/-- `tag`: what a version of a prompt is attributed under. -/
def CanaryPolicy.tag (name : String) (version : UInt32) : String :=
  name ++ "@v" ++ toString version.toNat

/-- A registry entry. -/
structure Prompt where
  id : String
  projectId : String
  name : String
  benchmarkId : Option String
  labels : OrdMap String UInt32
  canary : Option CanaryPolicy
  labelHistory : List LabelChange
  createdAt : Time
  updatedAt : Time

namespace Prompt

/-- `set_label`: the pointer and the ledger move together, and the ledger keeps the newest. -/
def setLabel (p : Prompt) (now : Time) (label : String) (version : UInt32) (reason : String) :
    Prompt :=
  let history := p.labelHistory ++ [⟨label, version, now, some reason⟩]
  { p with
    labels := p.labels.insert label version
    labelHistory := history.drop (history.length - MAX_LABEL_HISTORY) }

/-- A move as the registry stores it: `set_label`, and the time of the update. -/
def moveLabel (p : Prompt) (now : Time) (label : String) (version : UInt32) (reason : String) :
    Prompt :=
  { p.setLabel now label version reason with updatedAt := now }

/-- `previous_version`: the version that the label pointed at before its current one. -/
def previousVersion (p : Prompt) (label : String) : Option UInt32 :=
  ((p.labelHistory.reverse.filter fun c => c.label == label).map LabelChange.version).find? fun v =>
    some v != p.labels.get label

/-- The moves of one label that the ledger still holds, newest first. -/
def labelMoves (p : Prompt) (label : String) : List LabelChange :=
  p.labelHistory.reverse.filter fun c => c.label == label

theorem get_moveLabel (p : Prompt) (now : Time) (label label' : String) (version : UInt32)
    (reason : String) : (p.moveLabel now label version reason).labels.get label' =
      if label' = label then some version else p.labels.get label' :=
  OrdMap.get_insert ..

theorem reverse_history_moveLabel (p : Prompt) (now : Time) (label : String) (version : UInt32)
    (reason : String) : (p.moveLabel now label version reason).labelHistory.reverse =
      ⟨label, version, now, some reason⟩ :: p.labelHistory.reverse.take (MAX_LABEL_HISTORY - 1) := by
  unfold moveLabel setLabel
  simp only
  rw [← List.take_reverse, List.reverse_append]
  rfl

/-- A move is put in front of the moves of its label, and the oldest may drop off. -/
theorem labelMoves_moveLabel (p : Prompt) (now : Time) (label : String) (version : UInt32)
    (reason : String) : ∃ kept, kept <+: p.labelMoves label ∧
      (p.moveLabel now label version reason).labelMoves label =
        ⟨label, version, now, some reason⟩ :: kept := by
  unfold labelMoves
  rw [reverse_history_moveLabel, List.filter_cons_of_pos (by simp)]
  exact ⟨_, (List.take_prefix _ _).filter _, rfl⟩

/-- A move of another label drops the oldest at most. -/
theorem labelMoves_moveLabel_of_ne (p : Prompt) (now : Time) {label label' : String}
    (version : UInt32) (reason : String) (hne : label ≠ label') :
    (p.moveLabel now label version reason).labelMoves label' <+: p.labelMoves label' := by
  unfold labelMoves
  rw [reverse_history_moveLabel, List.filter_cons_of_neg (by simpa using hne)]
  exact (List.take_prefix _ _).filter _

/-- The version before the current one is that of the newest move to another. -/
theorem previousVersion_eq (p : Prompt) (label : String) :
    p.previousVersion label =
      (((p.labelMoves label).dropWhile fun c => some c.version == p.labels.get label).head?).map
        LabelChange.version := by
  unfold previousVersion labelMoves
  rw [List.find?_map, ← List.find?_not_eq_head?_dropWhile]
  rfl

end Prompt

end LightTrack
