import Mathlib.Algebra.Order.Ring.Rat
import Mathlib.Data.Rat.Defs
import Mathlib.Tactic.Common

/-! # Errors of the engine

What a call of a judge or candidate model can fail with.
-/

namespace LightTrack.Engine

/-- `std::time::Duration`, in nanoseconds: 64 bits of whole seconds. -/
abbrev Duration := { n : ℕ // n < 2 ^ 64 * 10 ^ 9 }

/-- `EngineError` -/
inductive EngineError where
  | spawn (bin source : String)
  | nonZero (code : Int) (stderr : String)
  | rateLimited (who : String) (retryAfter : Option Duration)
  | overBudgetWait (who : String) (askedSecs remainingSecs : ℚ) (attempts : ℕ)
  | serverError (who : String) (status : ℕ)
  | timeout (who : String)
  | badRequest (who : String) (status : ℕ) (body : String)
  | auth (who : String) (status : ℕ)
  | emptyCompletion (who : String)
  | truncated (who : String) (cap : ℕ) (reasoningTokens : Option ℕ)
  | http (who detail : String)
  | posture (message : String)
  | parse (message : String)
  | json (message : String)
  | other (message : String)

/-- `is_empty_completion` -/
def EngineError.isEmptyCompletion : EngineError → Bool
  | emptyCompletion _ => true
  | _ => false

/-- `Determinism` -/
inductive Determinism where
  | exact
  | bestEffort
  | sampled
  deriving DecidableEq

namespace Determinism

/-- `rank`, strongest first. -/
def rank : Determinism → ℕ
  | exact => 2
  | bestEffort => 1
  | sampled => 0

/-- `weakest` -/
def weakest (d e : Determinism) : Determinism := if d.rank ≤ e.rank then d else e

end Determinism

end LightTrack.Engine
