import LightTrack.Core.Text
import LightTrack.Engine.Error
import LightTrack.Lib.Run
import Mathlib.Algebra.Order.Floor.Ring
import Mathlib.Data.Rat.Floor
import Mathlib.Tactic.Linarith
import Mathlib.Tactic.NormNum

/-! # The gateway's failover

A request walks a chain of targets until one answers.  A seat that reports itself spent is held out
of the chain for a while.

* `classify`, `Cooldowns`, `visit`, `run` : the code,
* `visit_cases` : what one target of a chain can come to,
* `failover_discipline` : what holds of every request, from any state.

The clock is read anew by every operation: `clock i` is the `i`-th reading.  Whatever would panic is
none.
-/

namespace LightTrack.Gateway

open LightTrack.Engine

/-! ## Clocks and durations -/

/-- `Instant`, in nanoseconds of the monotonic clock. -/
abbrev Instant := ℕ

/-- The first instant that has no representation: seconds are signed 64-bit. -/
def INSTANT_END : ℕ := 2 ^ 63 * 10 ^ 9

/-- `Instant + Duration` -/
def checkedAdd (now : Instant) (d : Duration) : Option Instant :=
  if now + d.val < INSTANT_END then some (now + d.val) else none

/-- `Duration::from_secs_f64` -/
def fromSecsF64 (secs : ℚ) : Option Duration :=
  let ns := ⌊secs * 10 ^ 9 + 1 / 2⌋
  if h : 0 ≤ secs ∧ ns.toNat < 2 ^ 64 * 10 ^ 9 then some ⟨ns.toNat, h.2⟩ else none

theorem fromMillis_lt (ms : ℕ) : min ms (2 ^ 64 - 1) * 10 ^ 6 < 2 ^ 64 * 10 ^ 9 := by
  have h : min ms (2 ^ 64 - 1) ≤ 2 ^ 64 - 1 := min_le_right _ _
  omega

/-- `Duration::from_millis`, of a number saturated to 64 bits. -/
def fromMillis (ms : ℕ) : Duration := ⟨min ms (2 ^ 64 - 1) * 10 ^ 6, fromMillis_lt ms⟩

/-- `RETRY_AFTER_HEADERS` -/
def RETRY_AFTER_HEADERS : List (String × ℕ) :=
  [("retry-after-ms", 1), ("x-ms-retry-after-ms", 1), ("retry-after", 1000)]

/-- `stated_retry_after`, where `parseF64` reads the finite numbers. -/
def statedRetryAfter (parseF64 : String → Option ℚ) (headers : String → Option String) :
    Option Duration :=
  RETRY_AFTER_HEADERS.findSome? fun h =>
    (headers h.1).bind fun raw => (parseF64 (strTrim raw)).bind fun n =>
      if 0 ≤ n then some (fromMillis ⌊n * h.2⌋.toNat) else none

/-! ## Classification -/

/-- `Verdict` -/
inductive Verdict where
  | exhausted (hold : Duration)
  | transient
  | terminal
  deriving DecidableEq

/-- `SEAT_PHRASES` -/
def SEAT_PHRASES : List String :=
  ["usage limit", "rate limit", "limit reached", "out of extra usage", "not logged in",
    "please run /login"]

/-- `contains` -/
def containsText (s p : String) : Bool := s.toList.tails.any fun t => p.toList.isPrefixOf t

/-- `classify` -/
def classify (err : EngineError) (defaultHold : Duration) : Option Verdict :=
  match err with
  | .rateLimited _ retryAfter => some (.exhausted (retryAfter.getD defaultHold))
  | .overBudgetWait _ askedSecs _ _ => (fromSecsF64 (max askedSecs 1)).map .exhausted
  | .auth _ _ => some (.exhausted defaultHold)
  | .nonZero _ stderr =>
    if SEAT_PHRASES.any (containsText (toAsciiLowercase stderr)) then
      some (.exhausted defaultHold)
    else some .transient
  | .serverError _ _ | .timeout _ | .http _ _ | .emptyCompletion _ | .spawn _ _ => some .transient
  | .badRequest _ _ _ | .truncated _ _ _ | .posture _ | .parse _ | .json _ | .other _ =>
    some .terminal

/-! ## Holds -/

/-- `Cooldowns`: until when each provider is held. -/
abbrev Cooldowns := String → Option Instant

namespace Cooldowns

/-- The holds with another one for `provider`. -/
def set (c : Cooldowns) (provider : String) (until_ : Option Instant) : Cooldowns :=
  fun p => if p = provider then until_ else c p

/-- `mark`: a longer existing hold is kept. -/
def mark (c : Cooldowns) (now : Instant) (provider : String) (forHowLong : Duration) :
    Option Cooldowns :=
  (checkedAdd now forHowLong).map fun u => c.set provider (some (max ((c provider).getD u) u))

/-- `remaining`: seconds left of a hold; one that has run out is dropped. -/
def remaining (c : Cooldowns) (now : Instant) (provider : String) : Option ℕ × Cooldowns :=
  match c provider with
  | some u => if now < u then (some (max ((u - now) / 10 ^ 9) 1), c) else (none, c.set provider none)
  | none => (none, c)

/-- `clear` -/
def clear (c : Cooldowns) (provider : String) : Cooldowns := c.set provider none

end Cooldowns

/-! ## The chain -/

/-- `Target` -/
structure Target where
  provider : String
  model : String
  deriving DecidableEq

/-- `AttemptKind` -/
inductive AttemptKind (χ : Type*) where
  | served (o : χ)
  | failed (error : EngineError) (verdict : Verdict)
  | skippedCooling (remainingSecs : ℕ)

/-- `Attempt` -/
structure Attempt (χ : Type*) where
  target : Target
  latencyMs : ℕ
  kind : AttemptKind χ

namespace Attempt

variable {χ : Type*}

/-- The attempt answered. -/
def isServed (a : Attempt χ) : Bool :=
  match a.kind with
  | .served _ => true
  | _ => false

/-- The attempt failed in a way that another seat would share. -/
def isTerminal (a : Attempt χ) : Bool :=
  match a.kind with
  | .failed _ .terminal => true
  | _ => false

/-- The target was tried. -/
def isTried (a : Attempt χ) : Bool :=
  match a.kind with
  | .skippedCooling _ => false
  | _ => true

/-- The hold that the attempt found to be due. -/
def found (a : Attempt χ) : Option Duration :=
  match a.kind with
  | .failed _ (.exhausted hold) => some hold
  | _ => none

end Attempt

/-- `ChainResult` -/
structure ChainResult (χ : Type*) where
  attempts : List (Attempt χ)
  served : Option ℕ

/-- `ChainRun`: the generator may answer differently at every reading of the clock. -/
structure ChainRun (χ : Type*) where
  gen : ℕ → Target → Except EngineError χ
  clock : ℕ → Instant
  defaultHold : Duration

/-- The holds, and how often the clock has been read. -/
structure State where
  cooldowns : Cooldowns
  reads : ℕ := 0

section Run

variable {χ : Type*}

/-- What a target answers; the seat of `simulate` counts as exhausted. -/
def answer (r : ChainRun χ) (simulate : Option String) (target : Target) (reads : ℕ) :
    Except EngineError χ :=
  if simulate = some target.provider then
    .error (.rateLimited (target.provider ++ " (simulated)") none)
  else r.gen reads target

/-- One target of a chain. -/
def visit (r : ChainRun χ) (simulate : Option String) (target : Target) (s : State) :
    Option (Attempt χ × State) :=
  match s.cooldowns.remaining (r.clock s.reads) target.provider with
  | (some secs, c) =>
    some ({ target := target, latencyMs := 0, kind := .skippedCooling secs },
      { cooldowns := c, reads := s.reads + 1 })
  | (none, c) =>
    let latencyMs := (r.clock (s.reads + 2) - r.clock (s.reads + 1)) / 10 ^ 6
    match answer r simulate target s.reads with
    | .ok o =>
      some ({ target := target, latencyMs := latencyMs, kind := .served o },
        { cooldowns := c.clear target.provider, reads := s.reads + 3 })
    | .error err =>
      match classify err r.defaultHold with
      | none => none
      | some (.exhausted hold) =>
        (c.mark (r.clock (s.reads + 3)) target.provider hold).map fun c =>
          ({ target := target, latencyMs := latencyMs, kind := .failed err (.exhausted hold) },
            { cooldowns := c, reads := s.reads + 4 })
      | some verdict =>
        some ({ target := target, latencyMs := latencyMs, kind := .failed err verdict },
          { cooldowns := c, reads := s.reads + 3 })

/-- The loop of `ChainRun::run`, after the attempts `attempts`. -/
def runFrom (r : ChainRun χ) (simulate : Option String) :
    List Target → List (Attempt χ) → State → Option (ChainResult χ × State)
  | [], attempts, s => some ({ attempts := attempts, served := none }, s)
  | target :: chain, attempts, s =>
    match visit r simulate target s with
    | none => none
    | some (a, s) =>
      if a.isServed then
        some ({ attempts := attempts ++ [a], served := some attempts.length }, s)
      else if a.isTerminal then some ({ attempts := attempts ++ [a], served := none }, s)
      else runFrom r simulate chain (attempts ++ [a]) s

/-- A request: its chain, and the provider whose seat it pretends to be exhausted. -/
structure Request where
  chain : List Target
  simulate : Option String := none

/-- `ChainRun::run` -/
def run (r : ChainRun χ) (req : Request) (s : State) : Option (ChainResult χ × State) :=
  runFrom r req.simulate req.chain [] s

/-- Requests one after the other. -/
def serve (r : ChainRun χ) : List Request → State → Option (List (ChainResult χ) × State)
  | [], s => some ([], s)
  | req :: reqs, s =>
    match run r req s with
    | none => none
    | some (result, s) => (serve r reqs s).map fun x => (result :: x.1, x.2)

end Run

/-! ## Holds -/

namespace Cooldowns

variable {c c' : Cooldowns} {now : Instant} {p q : String} {secs : ℕ}

@[simp] theorem set_self (x : Option Instant) : c.set p x p = x := by simp [set]

theorem set_of_ne (x : Option Instant) (h : q ≠ p) : c.set p x q = c q := by simp [set, h]

@[simp] theorem set_set (x y : Option Instant) : (c.set p x).set p y = c.set p y := by
  funext q
  by_cases h : q = p <;> simp [set, h]

theorem set_eq_self (h : c p = none) : c.set p none = c := by
  funext q
  by_cases hq : q = p
  · subst hq
    simp [set, h]
  · simp [set, hq]

/-- The provider may be tried: no hold on it is running. -/
def Free (c : Cooldowns) (now : Instant) (p : String) : Prop := ∀ u, c p = some u → u ≤ now

/-- A provider is passed over for the hold on it that is running. -/
theorem remaining_some (h : c.remaining now p = (some secs, c')) :
    (∃ u, c p = some u ∧ now < u) ∧ c' = c := by
  unfold remaining at h
  cases hu : c p with
  | none => simp [hu] at h
  | some u =>
    by_cases hlt : now < u
    · simp only [hu, if_pos hlt, Prod.mk.injEq] at h
      exact ⟨⟨u, rfl, hlt⟩, h.2.symm⟩
    · simp [hu, hlt] at h

/-- A provider may be tried where none is running, and one that has run out is dropped. -/
theorem remaining_none (h : c.remaining now p = (none, c')) :
    c.Free now p ∧ c' = c.set p none := by
  unfold remaining at h
  cases hu : c p with
  | none =>
    simp only [hu, Prod.mk.injEq, true_and] at h
    refine ⟨?_, ?_⟩
    · intro u hsome
      rw [hu] at hsome
      exact absurd hsome (by simp)
    · rw [set_eq_self hu]
      exact h.symm
  | some u =>
    by_cases hlt : now < u
    · simp [hu, hlt] at h
    · simp only [hu, if_neg hlt, Prod.mk.injEq, true_and] at h
      refine ⟨?_, h.symm⟩
      intro u' hsome
      rw [hu, Option.some.injEq] at hsome
      rw [← hsome]
      exact not_lt.1 hlt

end Cooldowns

/-! ## One target -/

section Visit

variable {χ : Type*}

/-- What the visit of a target can come to. -/
inductive Visited (r : ChainRun χ) (simulate : Option String) (target : Target) (s : State) :
    Attempt χ → State → Prop
  | cooling (secs u : ℕ) (hold : s.cooldowns target.provider = some u)
      (running : r.clock s.reads < u) :
      Visited r simulate target s
        { target := target, latencyMs := 0, kind := .skippedCooling secs }
        { cooldowns := s.cooldowns, reads := s.reads + 1 }
  | served (o : χ) (latencyMs : ℕ)
      (free : s.cooldowns.Free (r.clock s.reads) target.provider)
      (ok : answer r simulate target s.reads = .ok o) :
      Visited r simulate target s
        { target := target, latencyMs := latencyMs, kind := .served o }
        { cooldowns := s.cooldowns.set target.provider none, reads := s.reads + 3 }
  | exhausted (err : EngineError) (hold : Duration) (latencyMs : ℕ) (u : Instant)
      (free : s.cooldowns.Free (r.clock s.reads) target.provider)
      (error : answer r simulate target s.reads = .error err)
      (due : checkedAdd (r.clock (s.reads + 3)) hold = some u) :
      Visited r simulate target s
        { target := target, latencyMs := latencyMs, kind := .failed err (.exhausted hold) }
        { cooldowns := s.cooldowns.set target.provider (some u), reads := s.reads + 4 }
  | failed (err : EngineError) (verdict : Verdict) (latencyMs : ℕ)
      (free : s.cooldowns.Free (r.clock s.reads) target.provider)
      (error : answer r simulate target s.reads = .error err)
      (kind : ∀ hold, verdict ≠ .exhausted hold) :
      Visited r simulate target s
        { target := target, latencyMs := latencyMs, kind := .failed err verdict }
        { cooldowns := s.cooldowns.set target.provider none, reads := s.reads + 3 }

variable {r : ChainRun χ} {simulate : Option String} {target : Target} {s s' : State}
  {a : Attempt χ}

/-- **What one target of a chain can come to.** -/
theorem visit_cases (h : visit r simulate target s = some (a, s')) :
    Visited r simulate target s a s' := by
  unfold visit at h
  rcases hrem : s.cooldowns.remaining (r.clock s.reads) target.provider with ⟨secs, c⟩
  rw [hrem] at h
  cases secs with
  | some secs =>
    dsimp only at h
    rcases Cooldowns.remaining_some hrem with ⟨⟨u, hu, hlt⟩, rfl⟩
    injection h with h
    rcases Prod.mk.inj h with ⟨rfl, rfl⟩
    exact .cooling secs u hu hlt
  | none =>
    dsimp only at h
    rcases Cooldowns.remaining_none hrem with ⟨hfree, rfl⟩
    cases hans : answer r simulate target s.reads with
    | ok o =>
      rw [hans] at h
      injection h with h
      rcases Prod.mk.inj h with ⟨rfl, rfl⟩
      rw [Cooldowns.clear, Cooldowns.set_set]
      exact .served o _ hfree hans
    | error err =>
      rw [hans] at h
      dsimp only at h
      cases hverdict : classify err r.defaultHold with
      | none =>
        rw [hverdict] at h
        exact absurd h (by simp)
      | some verdict =>
        rw [hverdict] at h
        cases verdict with
        | exhausted hold =>
          dsimp only at h
          unfold Cooldowns.mark at h
          rcases Option.map_eq_some_iff.1 h with ⟨c, hc, hpair⟩
          rcases Option.map_eq_some_iff.1 hc with ⟨u, hu, rfl⟩
          rcases Prod.mk.inj hpair with ⟨rfl, rfl⟩
          -- the seat was free, so the new hold is the only one
          rw [Cooldowns.set_set, Cooldowns.set_self, Option.getD_none, max_self]
          exact .exhausted err hold _ u hfree hans hu
        | transient =>
          injection h with h
          rcases Prod.mk.inj h with ⟨rfl, rfl⟩
          exact .failed err .transient _ hfree hans (by simp)
        | terminal =>
          injection h with h
          rcases Prod.mk.inj h with ⟨rfl, rfl⟩
          exact .failed err .terminal _ hfree hans (by simp)

theorem visit_target (h : visit r simulate target s = some (a, s')) : a.target = target := by
  rcases visit_cases h <;> rfl

theorem visit_reads (h : visit r simulate target s = some (a, s')) : s.reads < s'.reads := by
  rcases visit_cases h <;> simp

/-- A target is tried only where no hold on its provider is running. -/
theorem visit_tried (h : visit r simulate target s = some (a, s')) (htried : a.isTried = true) :
    s.cooldowns.Free (r.clock s.reads) target.provider := by
  cases visit_cases h with
  | cooling secs u hold running => simp [Attempt.isTried] at htried
  | served o latencyMs free ok => exact free
  | exhausted err hold latencyMs u free error due => exact free
  | failed err verdict latencyMs free error kind => exact free

/-- A hold outlives a visit, unless it has run out by then or its provider answers. -/
theorem visit_kept (h : visit r simulate target s = some (a, s')) {p : String} {u : Instant}
    (hu : s.cooldowns p = some u) (hserved : ¬ (a.isServed = true ∧ target.provider = p)) :
    (∃ u', s'.cooldowns p = some u' ∧ u ≤ u') ∨ u ≤ r.clock s.reads := by
  by_cases hp : p = target.provider
  · subst hp
    cases visit_cases h with
    | cooling secs u' hold running => exact Or.inl ⟨u, hu, le_refl u⟩
    | served o latencyMs free ok => exact absurd ⟨rfl, rfl⟩ hserved
    | exhausted err hold latencyMs u' free error due => exact Or.inr (free u hu)
    | failed err verdict latencyMs free error kind => exact Or.inr (free u hu)
  · left
    refine ⟨u, ?_, le_refl u⟩
    rw [← hu]
    cases visit_cases h with
    | cooling secs u' hold running => rfl
    | served o latencyMs free ok => exact Cooldowns.set_of_ne _ hp
    | exhausted err hold latencyMs u' free error due => exact Cooldowns.set_of_ne _ hp
    | failed err verdict latencyMs free error kind => exact Cooldowns.set_of_ne _ hp

/-- A seat found exhausted is held for as long as was found, from an instant of the visit on. -/
theorem visit_found (h : visit r simulate target s = some (a, s')) {hold : Duration}
    (hfound : a.found = some hold) : ∃ t, s.reads ≤ t ∧ t < s'.reads ∧
      s'.cooldowns target.provider = some (r.clock t + hold.val) := by
  cases visit_cases h with
  | cooling secs u hold' running => simp [Attempt.found] at hfound
  | served o latencyMs free ok => simp [Attempt.found] at hfound
  | exhausted err hold' latencyMs u free error due =>
    simp only [Attempt.found, Option.some.injEq] at hfound
    subst hfound
    refine ⟨s.reads + 3, by omega, by simp, ?_⟩
    have hu : u = r.clock (s.reads + 3) + hold'.val := by
      unfold checkedAdd at due
      split at due
      · exact (Option.some.inj due).symm
      · exact absurd due (by simp)
    rw [← hu]
    exact Cooldowns.set_self _
  | failed err verdict latencyMs free error kind =>
    cases verdict with
    | exhausted hold' => exact absurd rfl (kind hold')
    | transient => simp [Attempt.found] at hfound
    | terminal => simp [Attempt.found] at hfound

end Visit

/-! ## No panic -/

/-- The longest wait that can be stated. -/
def STATED_MAX : ℕ := (2 ^ 64 - 1) * 10 ^ 6

theorem statedRetryAfter_le {parseF64 : String → Option ℚ} {headers : String → Option String}
    {d : Duration} (h : statedRetryAfter parseF64 headers = some d) : d.val ≤ STATED_MAX := by
  rcases List.exists_of_findSome?_eq_some h with ⟨header, _, hd⟩
  rcases Option.bind_eq_some_iff.1 hd with ⟨raw, _, hd⟩
  rcases Option.bind_eq_some_iff.1 hd with ⟨n, _, hd⟩
  split at hd
  · injection hd with hd
    subst hd
    exact Nat.mul_le_mul_right _ (min_le_right _ _)
  · exact absurd hd (by simp)

/-- An error as the engine returns it: the waits it carries were stated by a response. -/
def Returnable (parseF64 : String → Option ℚ) : EngineError → Prop
  | .rateLimited _ (some d) => ∃ headers, statedRetryAfter parseF64 headers = some d
  | .overBudgetWait _ askedSecs _ _ =>
    ∃ headers d, statedRetryAfter parseF64 headers = some d ∧ askedSecs = (d.val : ℚ) / 10 ^ 9
  | _ => True

theorem fromSecsF64_div (n : ℕ) (h : n < 2 ^ 64 * 10 ^ 9) :
    fromSecsF64 ((n : ℚ) / 10 ^ 9) = some ⟨n, h⟩ := by
  have hfloor : ⌊(n : ℚ) / 10 ^ 9 * 10 ^ 9 + 1 / 2⌋ = (n : ℤ) := by
    rw [Int.floor_eq_iff]
    have hcancel : (n : ℚ) / 10 ^ 9 * 10 ^ 9 = n := by
      rw [div_mul_cancel₀]
      norm_num
    rw [hcancel]
    constructor
    · push_cast
      linarith
    · push_cast
      linarith
  have hnonneg : 0 ≤ (n : ℚ) / 10 ^ 9 := div_nonneg (Nat.cast_nonneg n) (by norm_num)
  unfold fromSecsF64
  dsimp only
  rw [dif_pos]
  · simp only [hfloor, Int.toNat_natCast]
  · rw [hfloor, Int.toNat_natCast]
    exact ⟨hnonneg, h⟩

section Panic

variable {parseF64 : String → Option ℚ} {err : EngineError} {defaultHold : Duration}

/-- The longest hold that can be due. -/
def longestHold (defaultHold : Duration) : ℕ := max defaultHold.val STATED_MAX

/-- **Classification does not panic**, and no hold is longer than what was configured or stated. -/
theorem classify_returnable (h : Returnable parseF64 err) :
    ∃ verdict, classify err defaultHold = some verdict ∧
      ∀ hold, verdict = .exhausted hold → hold.val ≤ longestHold defaultHold := by
  have hdefault : ∀ hold, Verdict.exhausted defaultHold = .exhausted hold →
      hold.val ≤ longestHold defaultHold := by
    intro hold heq
    rw [← Verdict.exhausted.inj heq]
    exact le_max_left _ _
  cases err with
  | rateLimited who retryAfter =>
    refine ⟨_, rfl, ?_⟩
    cases retryAfter with
    | none => exact hdefault
    | some d =>
      rcases h with ⟨headers, hd⟩
      intro hold heq
      rw [← Verdict.exhausted.inj heq]
      exact (statedRetryAfter_le hd).trans (le_max_right _ _)
  | overBudgetWait who askedSecs remainingSecs attempts =>
    rcases h with ⟨headers, d, hd, rfl⟩
    -- the wait is rounded up to a second
    have hmax : max ((d.val : ℚ) / 10 ^ 9) 1 = ((max d.val (10 ^ 9) : ℕ) : ℚ) / 10 ^ 9 := by
      have hsecond : (1 : ℚ) = 10 ^ 9 / 10 ^ 9 := by norm_num
      rw [Nat.cast_max, hsecond, max_div_div_right (by norm_num)]
      push_cast
      norm_num
    have hlt : max d.val (10 ^ 9) < 2 ^ 64 * 10 ^ 9 := max_lt d.property (by norm_num)
    refine ⟨.exhausted ⟨max d.val (10 ^ 9), hlt⟩, ?_, ?_⟩
    · simp only [classify, hmax, fromSecsF64_div _ hlt, Option.map_some]
    · intro hold heq
      rw [← Verdict.exhausted.inj heq]
      have hsecond : 10 ^ 9 ≤ STATED_MAX := by norm_num [STATED_MAX]
      exact (max_le (statedRetryAfter_le hd) hsecond).trans (le_max_right _ _)
  | auth who status => exact ⟨_, rfl, hdefault⟩
  | nonZero code stderr =>
    by_cases hseat : SEAT_PHRASES.any (containsText (toAsciiLowercase stderr)) = true
    · exact ⟨_, if_pos hseat, hdefault⟩
    · exact ⟨_, if_neg hseat, by simp⟩
  | serverError who status => exact ⟨_, rfl, by simp⟩
  | timeout who => exact ⟨_, rfl, by simp⟩
  | http who detail => exact ⟨_, rfl, by simp⟩
  | emptyCompletion who => exact ⟨_, rfl, by simp⟩
  | spawn bin source => exact ⟨_, rfl, by simp⟩
  | badRequest who status body => exact ⟨_, rfl, by simp⟩
  | truncated who cap reasoningTokens => exact ⟨_, rfl, by simp⟩
  | posture message => exact ⟨_, rfl, by simp⟩
  | parse message => exact ⟨_, rfl, by simp⟩
  | json message => exact ⟨_, rfl, by simp⟩
  | other message => exact ⟨_, rfl, by simp⟩

end Panic

/-- What the gateway is run with: a clock that never goes back, readings that leave room for the
longest hold, and errors as the engine returns them. -/
structure Sound {χ : Type*} (parseF64 : String → Option ℚ) (r : ChainRun χ) : Prop where
  monotone : ∀ i j, i ≤ j → r.clock i ≤ r.clock j
  room : ∀ i, r.clock i + longestHold r.defaultHold < INSTANT_END
  returnable : ∀ i target err, r.gen i target = .error err → Returnable parseF64 err

section Total

variable {χ : Type*} {parseF64 : String → Option ℚ} {r : ChainRun χ}

theorem answer_returnable (hr : Sound parseF64 r) {simulate : Option String} {target : Target}
    {reads : ℕ} {err : EngineError} (h : answer r simulate target reads = .error err) :
    Returnable parseF64 err := by
  unfold answer at h
  split at h
  · injection h with h
    subst h
    trivial
  · exact hr.returnable _ _ _ h

theorem visit_total (hr : Sound parseF64 r) (simulate : Option String) (target : Target)
    (s : State) : ∃ a s', visit r simulate target s = some (a, s') := by
  unfold visit
  rcases s.cooldowns.remaining (r.clock s.reads) target.provider with ⟨secs, c⟩
  cases secs with
  | some secs => exact ⟨_, _, rfl⟩
  | none =>
    dsimp only
    cases hans : answer r simulate target s.reads with
    | ok o => exact ⟨_, _, rfl⟩
    | error err =>
      rcases @classify_returnable _ _ r.defaultHold (answer_returnable hr hans) with
        ⟨verdict, hverdict, hle⟩
      simp only [hverdict]
      cases verdict with
      | exhausted hold =>
        have hlt : r.clock (s.reads + 3) + hold.val < INSTANT_END :=
          lt_of_le_of_lt (Nat.add_le_add_left (hle hold rfl) _) (hr.room (s.reads + 3))
        simp [Cooldowns.mark, checkedAdd, hlt]
      | transient => exact ⟨_, _, rfl⟩
      | terminal => exact ⟨_, _, rfl⟩

theorem runFrom_total (hr : Sound parseF64 r) (simulate : Option String) (chain : List Target)
    (attempts : List (Attempt χ)) (s : State) :
    ∃ result s', runFrom r simulate chain attempts s = some (result, s') := by
  induction chain generalizing attempts s with
  | nil => exact ⟨_, _, rfl⟩
  | cons target chain ih =>
    rcases visit_total hr simulate target s with ⟨a, s', hvisit⟩
    unfold runFrom
    rw [hvisit]
    dsimp only
    by_cases hserved : a.isServed = true
    · exact ⟨_, _, if_pos hserved⟩
    · rw [if_neg hserved]
      by_cases hterminal : a.isTerminal = true
      · exact ⟨_, _, if_pos hterminal⟩
      · rw [if_neg hterminal]
        exact ih _ _

theorem serve_total (hr : Sound parseF64 r) (requests : List Request) (s : State) :
    ∃ results s', serve r requests s = some (results, s') := by
  induction requests generalizing s with
  | nil => exact ⟨_, _, rfl⟩
  | cons req requests ih =>
    rcases runFrom_total hr req.simulate req.chain [] s with ⟨result, s', hrun⟩
    rcases ih s' with ⟨results, s'', hserve⟩
    refine ⟨result :: results, s'', ?_⟩
    unfold serve run
    simp [hrun, hserve]

end Total

/-! ## Requests -/

section Requests

variable {χ : Type*} {r : ChainRun χ} {s s' : State}

/-- One attempt, under the provider its request pretends to be exhausted. -/
def Step (r : ChainRun χ) (s : State) (l : Option String × Attempt χ) (s' : State) : Prop :=
  visit r l.1 l.2.target s = some (l.2, s')

/-- The attempts of a request, in order. -/
structure InOrder (chain : List Target) (result : ChainResult χ) : Prop where
  /-- a prefix of the chain, one attempt for each target -/
  targets : result.attempts.map Attempt.target <+: chain
  /-- nothing is attempted after an answer or a terminal failure -/
  stops : ∀ pre a post, result.attempts = pre ++ a :: post →
    a.isServed = true ∨ a.isTerminal = true → post = []
  /-- `served` is the attempt that answered -/
  served : ∀ i, result.served = some i ↔ ∃ a, result.attempts[i]? = some a ∧ a.isServed = true

/-- What the loop adds to the attempts so far. -/
structure Extends (r : ChainRun χ) (simulate : Option String) (chain : List Target) (s s' : State)
    (attempts new : List (Attempt χ)) (result : ChainResult χ) : Prop where
  added : result.attempts = attempts ++ new
  targets : new.map Attempt.target <+: chain
  stops : ∀ pre a post, new = pre ++ a :: post →
    a.isServed = true ∨ a.isTerminal = true → post = []
  served : (∀ a ∈ attempts, a.isServed = false) → ∀ i,
    result.served = some i ↔ ∃ a, (attempts ++ new)[i]? = some a ∧ a.isServed = true
  run : Sys.Run (Step r) s (new.map fun a => (simulate, a)) s'

theorem served_iff_of_forall {attempts : List (Attempt χ)}
    (h : ∀ a ∈ attempts, a.isServed = false) (i : ℕ) :
    (none : Option ℕ) = some i ↔ ∃ a, attempts[i]? = some a ∧ a.isServed = true := by
  constructor
  · intro hnone
    exact absurd hnone (by simp)
  · rintro ⟨a, ha, hserved⟩
    rw [h a (List.mem_of_getElem? ha)] at hserved
    exact absurd hserved (by simp)

/-- A single attempt that ends the loop. -/
theorem stops_singleton {a b : Attempt χ} {pre post : List (Attempt χ)}
    (h : [a] = pre ++ b :: post) : post = [] := by
  rcases List.append_eq_singleton_iff.1 h.symm with ⟨_, hpost⟩ | ⟨_, hpost⟩
  · exact (List.cons.inj hpost).2
  · exact absurd hpost (by simp)

/-- The attempts before one and that one together. -/
theorem forall_concat {attempts : List (Attempt χ)} {a : Attempt χ}
    (h : ∀ b ∈ attempts, b.isServed = false) (ha : a.isServed = false) :
    ∀ b ∈ attempts ++ [a], b.isServed = false :=
  List.forall_mem_append.2 ⟨h, List.forall_mem_singleton.2 ha⟩

section Extends

variable {simulate : Option String} {target : Target} {chain : List Target} {a : Attempt χ}
  {attempts new : List (Attempt χ)} {result : ChainResult χ} {s₁ : State}

theorem isPrefix_target (htarget : a.target = target) :
    [a].map Attempt.target <+: target :: chain := by
  rw [List.map_singleton, htarget]
  exact List.prefix_append [target] chain

/-- An attempt that answers ends the loop, and it is the one that served. -/
theorem extends_served (htarget : a.target = target) (hstep : Step r s (simulate, a) s')
    (hserved : a.isServed = true) :
    Extends r simulate (target :: chain) s s' attempts [a]
      { attempts := attempts ++ [a], served := some attempts.length } := by
  refine ⟨rfl, isPrefix_target htarget, fun pre b post hnew _ => stops_singleton hnew, ?_,
    .single hstep⟩
  intro hnone i
  rw [Option.some.injEq]
  constructor
  · intro hi
    refine ⟨a, ?_, hserved⟩
    rw [← hi]
    exact List.getElem?_concat_length
  · -- no attempt before it answered, and there is none behind it
    rintro ⟨b, hb, hbserved⟩
    by_contra hne
    rw [List.getElem?_append] at hb
    split at hb
    · rw [hnone b (List.mem_of_getElem? hb)] at hbserved
      exact absurd hbserved (by simp)
    · have hpos : 1 ≤ i - attempts.length := by omega
      rw [List.getElem?_eq_none (by simpa using hpos)] at hb
      exact absurd hb (by simp)

/-- So does a terminal failure: another seat would fail the same way. -/
theorem extends_terminal (htarget : a.target = target) (hstep : Step r s (simulate, a) s')
    (hserved : a.isServed = false) :
    Extends r simulate (target :: chain) s s' attempts [a]
      { attempts := attempts ++ [a], served := none } :=
  ⟨rfl, isPrefix_target htarget, fun _ _ _ hnew _ => stops_singleton hnew,
    fun hnone i => served_iff_of_forall (forall_concat hnone hserved) i, .single hstep⟩

/-- An attempt that ends nothing comes before those of the rest of the chain. -/
theorem Extends.cons (h : Extends r simulate chain s₁ s' (attempts ++ [a]) new result)
    (htarget : a.target = target) (hstep : Step r s (simulate, a) s₁)
    (hserved : a.isServed = false) (hterminal : ¬ a.isTerminal = true) :
    Extends r simulate (target :: chain) s s' attempts (a :: new) result := by
  have hadded : attempts ++ [a] ++ new = attempts ++ a :: new := by
    rw [List.append_assoc, List.singleton_append]
  refine ⟨h.added.trans hadded, ?_, ?_, ?_, (Sys.Run.single hstep).append h.run⟩
  · rw [List.map_cons, htarget]
    exact (List.prefix_cons_inj target).2 h.targets
  · intro pre b post hnew hends
    cases pre with
    | nil =>
      rcases List.cons.inj hnew with ⟨rfl, -⟩
      rcases hends with hends | hends
      · rw [hserved] at hends
        cases hends
      · exact absurd hends hterminal
    | cons c pre => exact h.stops pre b post (List.cons.inj hnew).2 hends
  · intro hnone i
    rw [h.served (forall_concat hnone hserved) i, hadded]

end Extends

/-- What the loop adds, attempt by attempt. -/
theorem runFrom_extends {simulate : Option String} {chain : List Target}
    {attempts : List (Attempt χ)} {result : ChainResult χ}
    (h : runFrom r simulate chain attempts s = some (result, s')) :
    ∃ new, Extends r simulate chain s s' attempts new result := by
  induction chain generalizing attempts s with
  | nil =>
    injection h with h
    rcases Prod.mk.inj h with ⟨rfl, rfl⟩
    refine ⟨[], (List.append_nil _).symm, by simp, ?_, ?_, .nil⟩
    · intro pre a post hnew
      exact absurd hnew (by simp)
    · intro hnone i
      rw [List.append_nil]
      exact served_iff_of_forall hnone i
  | cons target chain ih =>
    unfold runFrom at h
    cases hvisit : visit r simulate target s with
    | none =>
      rw [hvisit] at h
      exact absurd h (by simp)
    | some x =>
      rcases x with ⟨a, s₁⟩
      rw [hvisit] at h
      dsimp only at h
      have htarget : a.target = target := visit_target hvisit
      have hstep : Step r s (simulate, a) s₁ := by
        unfold Step
        rw [htarget]
        exact hvisit
      by_cases hserved : a.isServed = true
      · rw [if_pos hserved] at h
        injection h with h
        rcases Prod.mk.inj h with ⟨rfl, rfl⟩
        exact ⟨[a], extends_served htarget hstep hserved⟩
      · rw [if_neg hserved] at h
        have hnotServed : a.isServed = false := by simpa using hserved
        by_cases hterminal : a.isTerminal = true
        · rw [if_pos hterminal] at h
          injection h with h
          rcases Prod.mk.inj h with ⟨rfl, rfl⟩
          exact ⟨[a], extends_terminal htarget hstep hnotServed⟩
        · rw [if_neg hterminal] at h
          rcases ih h with ⟨new, hnew⟩
          exact ⟨a :: new, hnew.cons htarget hstep hnotServed hterminal⟩

/-- **The attempts of a request follow its chain.** -/
theorem run_inOrder {req : Request} {result : ChainResult χ} (h : run r req s = some (result, s')) :
    InOrder req.chain result ∧
      Sys.Run (Step r) s (result.attempts.map fun a => (req.simulate, a)) s' := by
  rcases runFrom_extends h with ⟨new, hattempts, htargets, hstops, hserves, hrun⟩
  rw [List.nil_append] at hattempts
  subst hattempts
  refine ⟨⟨htargets, hstops, ?_⟩, hrun⟩
  intro i
  have hiff := hserves (by simp) i
  rwa [List.nil_append] at hiff

/-- The attempts of requests one after the other. -/
def attemptsOf (requests : List Request) (results : List (ChainResult χ)) :
    List (Option String × Attempt χ) :=
  (requests.zip results).flatMap fun x => x.2.attempts.map fun a => (x.1.simulate, a)

theorem serve_inOrder {requests : List Request} {results : List (ChainResult χ)}
    (h : serve r requests s = some (results, s')) :
    List.Forall₂ (fun req result => InOrder req.chain result) requests results ∧
      Sys.Run (Step r) s (attemptsOf requests results) s' := by
  induction requests generalizing s results with
  | nil =>
    injection h with h
    rcases Prod.mk.inj h with ⟨rfl, rfl⟩
    exact ⟨.nil, .nil⟩
  | cons req requests ih =>
    unfold serve at h
    cases hrun : run r req s with
    | none =>
      rw [hrun] at h
      exact absurd h (by simp)
    | some x =>
      rcases x with ⟨result, s₁⟩
      rw [hrun] at h
      dsimp only at h
      rcases Option.map_eq_some_iff.1 h with ⟨y, hy, hpair⟩
      rcases Prod.mk.inj hpair with ⟨rfl, rfl⟩
      rcases run_inOrder hrun with ⟨horder, hsteps⟩
      rcases ih hy with ⟨hall, hrest⟩
      refine ⟨.cons horder hall, ?_⟩
      unfold attemptsOf
      rw [List.zip_cons_cons, List.flatMap_cons]
      exact hsteps.append hrest

end Requests

/-! ## Holds over runs -/

section Runs

variable {χ : Type*} {parseF64 : String → Option ℚ} {r : ChainRun χ} {s s' : State}
  {ls : List (Option String × Attempt χ)}

/-- The provider answered. -/
def Answered (p : String) (l : Option String × Attempt χ) : Prop :=
  l.2.isServed = true ∧ l.2.target.provider = p

/-- **A hold is never shortened**: unless its provider answers, it is there until it has run out. -/
theorem run_kept (hr : Sound parseF64 r) (hrun : Sys.Run (Step r) s ls s') {p : String}
    {u : Instant} (hu : s.cooldowns p = some u) (hls : ∀ l ∈ ls, ¬ Answered p l) :
    (∃ u', s'.cooldowns p = some u' ∧ u ≤ u') ∨ u ≤ r.clock s'.reads := by
  refine hrun.trace_invariant
    (I := fun ls a => (∀ l ∈ ls, ¬ Answered p l) →
      (∃ u', a.cooldowns p = some u' ∧ u ≤ u') ∨ u ≤ r.clock a.reads) ?_ ?_ hls
  · intro _
    exact Or.inl ⟨u, hu, le_refl u⟩
  · intro ls a l b hstep ih hls
    have hlater : r.clock a.reads ≤ r.clock b.reads :=
      hr.monotone _ _ (visit_reads hstep).le
    rcases ih fun l' hl' => hls l' (List.mem_append_left _ hl') with ⟨u', hu', hle⟩ | hover
    · have hserved := hls l (List.mem_append_right _ (List.mem_singleton.2 rfl))
      rcases visit_kept hstep hu' hserved with ⟨u'', hu'', hle'⟩ | hover
      · exact Or.inl ⟨u'', hu'', hle.trans hle'⟩
      · exact Or.inr ((hle.trans hover).trans hlater)
    · exact Or.inr (hover.trans hlater)

/-- A provider found exhausted is tried again only when the hold has run out, unless it answered in
between. -/
theorem run_waited (hr : Sound parseF64 r) {s₁ s₂ s₃ : State} {l l' : Option String × Attempt χ}
    (hstep : Step r s l s₁) {hold : Duration} (hfound : l.2.found = some hold)
    (hrun : Sys.Run (Step r) s₁ ls s₂) (hls : ∀ x ∈ ls, ¬ Answered l.2.target.provider x)
    (hstep' : Step r s₂ l' s₃) (hsame : l'.2.target.provider = l.2.target.provider)
    (htried : l'.2.isTried = true) :
    ∃ t, s.reads ≤ t ∧ t < s₁.reads ∧ r.clock t + hold.val ≤ r.clock s₂.reads := by
  rcases visit_found hstep hfound with ⟨t, hle, hlt, hheld⟩
  refine ⟨t, hle, hlt, ?_⟩
  rcases run_kept hr hrun hheld hls with ⟨u', hu', hle'⟩ | hover
  · -- the hold is still there, so it is not running any more
    have hfree := visit_tried hstep' htried
    rw [hsame] at hfree
    exact hle'.trans (hfree u' hu')
  · exact hover

end Runs

/-! ## The discipline -/

/-- What holds of every sequence of requests, from any state. -/
structure Disciplined {χ : Type*} (r : ChainRun χ) : Prop where
  /-- every request comes to an end, along its chain -/
  orderly : ∀ requests s, ∃ results s', serve r requests s = some (results, s') ∧
    List.Forall₂ (fun req result => InOrder req.chain result) requests results ∧
    Sys.Run (Step r) s (attemptsOf requests results) s'
  /-- a provider is not tried while a hold on it is running -/
  respected : ∀ s l s', Step r s l s' → l.2.isTried = true →
    s.cooldowns.Free (r.clock s.reads) l.2.target.provider
  /-- one found exhausted is tried again when that hold has run out, unless it answered -/
  waited : ∀ s l s₁ hold ls s₂ l' s₃, Step r s l s₁ → l.2.found = some hold →
    Sys.Run (Step r) s₁ ls s₂ → (∀ x ∈ ls, ¬ Answered l.2.target.provider x) →
    Step r s₂ l' s₃ → l'.2.target.provider = l.2.target.provider → l'.2.isTried = true →
    ∃ t, s.reads ≤ t ∧ t < s₁.reads ∧ r.clock t + hold.val ≤ r.clock s₂.reads
  /-- only an answer of its provider ends a hold early -/
  kept : ∀ s ls s' p u, Sys.Run (Step r) s ls s' → s.cooldowns p = some u →
    (∀ l ∈ ls, ¬ Answered p l) →
    (∃ u', s'.cooldowns p = some u' ∧ u ≤ u') ∨ u ≤ r.clock s'.reads

/-- **The gateway's failover is disciplined.** -/
theorem failover_discipline {χ : Type*} (parseF64 : String → Option ℚ) (r : ChainRun χ)
    (hr : Sound parseF64 r) : Disciplined r := by
  constructor
  · intro requests s
    rcases serve_total hr requests s with ⟨results, s', hserve⟩
    rcases serve_inOrder hserve with ⟨horder, hrun⟩
    exact ⟨results, s', hserve, horder, hrun⟩
  · intro s l s' hstep htried
    exact visit_tried hstep htried
  · intro s l s₁ hold ls s₂ l' s₃ hstep hfound hrun hls hstep' hsame htried
    exact run_waited hr hstep hfound hrun hls hstep' hsame htried
  · intro s ls s' p u hrun hu hls
    exact run_kept hr hrun hu hls

/-- A seat whose responses state a wait: `gemini` is down, `anthropic` is limited. -/
def limitedRun (wait : Option Duration) (defaultHold : Duration) : ChainRun Unit where
  gen _ target :=
    if target.provider = "anthropic" then .error (.rateLimited "claude" wait)
    else if target.provider = "codex" then .ok ()
    else .error (.serverError target.provider 503)
  clock i := min i (2 ^ 62)
  defaultHold := defaultHold

/-- Waits as whole seconds. -/
def readSeconds (text : String) : Option ℚ :=
  if text = "0" then some 0 else if text = "60" then some 60 else none

theorem limitedRun_monotone (wait : Option Duration) (defaultHold : Duration) (i j : ℕ)
    (h : i ≤ j) : (limitedRun wait defaultHold).clock i ≤ (limitedRun wait defaultHold).clock j :=
  min_le_min_right _ h

theorem limitedRun_returnable {wait : Option Duration} (defaultHold : Duration)
    (h : ∀ d, wait = some d → ∃ headers, statedRetryAfter readSeconds headers = some d) (i : ℕ)
    (target : Target) (err : EngineError)
    (herr : (limitedRun wait defaultHold).gen i target = .error err) :
    Returnable readSeconds err := by
  unfold limitedRun at herr
  dsimp only at herr
  split at herr
  · injection herr with herr
    subst herr
    cases wait with
    | none => trivial
    | some d => exact h d rfl
  · split at herr
    · exact absurd herr (by simp)
    · injection herr with herr
      subst herr
      trivial

theorem stated_minute : statedRetryAfter readSeconds
    (fun h => if h = "retry-after" then some "60" else none) = some (fromMillis 60000) := by
  decide +kernel

theorem stated_nothing : statedRetryAfter readSeconds
    (fun h => if h = "retry-after" then some "0" else none) = some (fromMillis 0) := by
  decide +kernel

/-- A gateway with a limited seat and the cooldown it comes with. -/
theorem failover_discipline_limited :
    Disciplined (limitedRun (some (fromMillis 60000)) (fromMillis 300000)) := by
  apply failover_discipline readSeconds
  constructor
  · exact limitedRun_monotone _ _
  · intro i
    have hclock : (limitedRun (some (fromMillis 60000)) (fromMillis 300000)).clock i ≤ 2 ^ 62 :=
      min_le_right _ _
    have hlongest : 2 ^ 62 + longestHold (limitedRun (some (fromMillis 60000))
        (fromMillis 300000)).defaultHold < INSTANT_END := by decide +kernel
    exact lt_of_le_of_lt (Nat.add_le_add_right hclock _) hlongest
  · apply limitedRun_returnable
    intro d hd
    rw [← Option.some.inj hd]
    exact ⟨_, stated_minute⟩

/-- A stated wait of zero holds nothing, so the next target of the same seat is tried; and a
configured cooldown may reach beyond the instants there are. -/
theorem empty_hold_retried :
    (¬ ∀ (parseF64 : String → Option ℚ) (r : ChainRun Unit), Sound parseF64 r →
      ∀ req s result s', run r req s = some (result, s') → ∀ (i j : ℕ) (a b : Attempt Unit) hold,
        i < j → result.attempts[i]? = some a → result.attempts[j]? = some b →
        a.found = some hold → b.target.provider = a.target.provider → b.isTried = false) ∧
    ¬ ∀ (parseF64 : String → Option ℚ) (r : ChainRun Unit),
      (∀ i j, i ≤ j → r.clock i ≤ r.clock j) → (∀ i, r.clock i ≤ 2 ^ 62) →
      (∀ i target err, r.gen i target = .error err → Returnable parseF64 err) →
      ∀ req s, (run r req s).isSome = true := by
  constructor
  · intro h
    have hsound : Sound readSeconds (limitedRun (some (fromMillis 0)) (fromMillis 300000)) := by
      constructor
      · exact limitedRun_monotone _ _
      · intro i
        have hclock : (limitedRun (some (fromMillis 0)) (fromMillis 300000)).clock i ≤ 2 ^ 62 :=
          min_le_right _ _
        have hlongest : 2 ^ 62 + longestHold (limitedRun (some (fromMillis 0))
            (fromMillis 300000)).defaultHold < INSTANT_END := by decide +kernel
        exact lt_of_le_of_lt (Nat.add_le_add_right hclock _) hlongest
      · apply limitedRun_returnable
        intro d hd
        rw [← Option.some.inj hd]
        exact ⟨_, stated_nothing⟩
    -- the run itself: the seat that is held for nothing is tried again
    have hvalue : (run (limitedRun (some (fromMillis 0)) (fromMillis 300000))
        { chain := [⟨"gemini", "g"⟩, ⟨"anthropic", "a"⟩, ⟨"anthropic", "b"⟩] }
        { cooldowns := fun _ => none }).map (fun x => x.1.attempts.map fun a =>
          (a.target.provider, a.found, a.isTried)) =
        some [("gemini", none, true), ("anthropic", some (fromMillis 0), true),
          ("anthropic", some (fromMillis 0), true)] := by decide +kernel
    rcases Option.map_eq_some_iff.1 hvalue with ⟨⟨result, s'⟩, hrun, hattempts⟩
    have hone := congrArg (fun l => l[1]?) hattempts
    have htwo := congrArg (fun l => l[2]?) hattempts
    simp only [List.getElem?_map] at hone htwo
    rcases Option.map_eq_some_iff.1 hone with ⟨a, ha, hfa⟩
    rcases Option.map_eq_some_iff.1 htwo with ⟨b, hb, hfb⟩
    simp only [Prod.mk.injEq] at hfa hfb
    have hfalse := h _ _ hsound _ _ _ _ hrun 1 2 a b (fromMillis 0) (by simp) ha hb hfa.2.1
      (hfb.1.trans hfa.1.symm)
    rw [hfb.2.2] at hfalse
    exact absurd hfalse (by simp)
  · intro h
    have hsome := h readSeconds
      (limitedRun none ⟨(2 ^ 63 - 1) * 10 ^ 9, by norm_num⟩)
      (limitedRun_monotone _ _) (fun i => min_le_right _ _)
      (limitedRun_returnable _ (by simp)) { chain := [⟨"anthropic", "a"⟩] }
      { cooldowns := fun _ => none, reads := 10 ^ 9 }
    revert hsome
    decide +kernel

end LightTrack.Gateway
