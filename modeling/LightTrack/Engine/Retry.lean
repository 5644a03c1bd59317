import LightTrack.Gateway.Failover

/-! # The retry ladder

A call that fails for a passing reason is made again, after a delay: the one the provider stated, or
else one that doubles.  The ladder is bounded twice, in calls and in time.

* `rung`, `climb`, `withRetryWithin` : the code,
* `rung_wait` : what must hold for another call to be made,
* `climb_bounded` : what holds of every ladder, by induction on the calls left,
* `withRetryWithin_keepsBounds` : both bounds, and what the ladder returns.

A sleep takes the time asked for, and only calls and sleeps take time.
-/

namespace LightTrack.Engine

open LightTrack.Gateway (Instant INSTANT_END STATED_MAX checkedAdd fromMillis)

/-! ## Errors -/

namespace EngineError

/-- `is_retryable` -/
def isRetryable : EngineError → Bool
  | rateLimited _ _ | serverError _ _ | timeout _ => true
  | _ => false

/-- `stated_retry_after`: the wait the response of this failure stated. -/
def statedRetryAfter : EngineError → Option Duration
  | rateLimited _ retryAfter => retryAfter
  | _ => none

/-- `who` failed; `display` is the text of an error. -/
def who (display : EngineError → String) : EngineError → String
  | rateLimited who _ | serverError who _ | timeout who => who
  | e => display e

end EngineError

/-! ## Durations -/

/-- What fits 64 bits. -/
def sat64 (n : ℕ) : ℕ := min n (2 ^ 64 - 1)

theorem saturatingAdd_lt (n : ℕ) : min n (2 ^ 64 * 10 ^ 9 - 1) < 2 ^ 64 * 10 ^ 9 := by
  omega

/-- `Duration::saturating_add` -/
def saturatingAdd (a b : Duration) : Duration :=
  ⟨min (a.val + b.val) (2 ^ 64 * 10 ^ 9 - 1), saturatingAdd_lt _⟩

/-- `as_millis() as u64`: the low 64 bits. -/
def asMillis (d : Duration) : ℕ := d.val / 10 ^ 6 % 2 ^ 64

/-- `as_secs_f64` -/
def asSecs (nanos : ℕ) : ℚ := (nanos : ℚ) / 10 ^ 9

/-- `MAX_TRIES` -/
def MAX_TRIES : ℕ := 3

/-- `BASE_DELAY_MS` -/
def BASE_DELAY_MS : ℕ := 200

/-- `CALL_BUDGET` -/
def CALL_BUDGET : Duration := ⟨60 * 10 ^ 9, by decide⟩

/-- `MIN_ATTEMPT_BUDGET` -/
def MIN_ATTEMPT_BUDGET : Duration := ⟨10 ^ 9, by decide⟩

/-- `STATED_JITTER_CAP_MS` -/
def STATED_JITTER_CAP_MS : ℕ := 1000

/-- `jitter`, from the sub-second nanoseconds of the system clock. -/
def jitter (base nanos : ℕ) : ℕ := if base = 0 then 0 else nanos % base

/-- `backoff` -/
def backoff (attempt nanos : ℕ) : Duration :=
  let base := sat64 (BASE_DELAY_MS * sat64 (2 ^ (attempt - 1)))
  fromMillis (sat64 (base + jitter base nanos))

/-- The milliseconds added to a stated wait. -/
def statedJitter (asked : Duration) (nanos : ℕ) : ℕ :=
  jitter (min (asMillis asked) STATED_JITTER_CAP_MS) nanos

/-- The delay after a failure that stated a wait. -/
def statedDelay (asked : Duration) (nanos : ℕ) : Duration :=
  saturatingAdd asked (fromMillis (statedJitter asked nanos))

/-- The delay after a failure. -/
def delayAfter (e : EngineError) (attempt nanos : ℕ) : Duration :=
  match e.statedRetryAfter with
  | some asked => statedDelay asked nanos
  | none => backoff attempt nanos

/-! ## The ladder -/

variable {α σ : Type}

/-- How a call went: its result, how long it took, and the nanoseconds that the system clock showed
when it had failed. -/
structure Report (α : Type) where
  result : Except EngineError α
  elapsed : ℕ
  nanos : ℕ

/-- A call of a ladder. -/
structure Try (α : Type) where
  start : Instant
  finish : Instant
  result : Except EngineError α
  nanos : ℕ

/-- The call made at `now`. -/
def tryAt (f : σ → Report α × σ) (now : Instant) (s : σ) : Try α where
  start := now
  finish := now + (f s).1.elapsed
  result := (f s).1.result
  nanos := (f s).1.nanos

/-- What the ladder does after a call. -/
inductive Rung (α : Type) where
  | stop (result : Except EngineError α)
  | wait (delay : Duration)

/-- The body of the loop, once the call is made. -/
def rung (display : EngineError → String) (deadline : Instant) (attempt : ℕ) (a : Try α) : Rung α :=
  match a.result with
  | .ok v => .stop (.ok v)
  | .error e =>
    if e.isRetryable = true ∧ attempt < MAX_TRIES then
      let remaining := deadline - a.finish
      let delay := delayAfter e attempt a.nanos
      if remaining < (saturatingAdd delay MIN_ATTEMPT_BUDGET).val then
        match e.statedRetryAfter with
        | some asked =>
          .stop (.error (.overBudgetWait (e.who display) (asSecs asked.val) (asSecs remaining) attempt))
        | none => .stop (.error e)
      else .wait delay
    else .stop (.error e)

section Rung

variable {display : EngineError → String} {deadline : Instant} {attempt : ℕ} {a : Try α}
  {e : EngineError}

theorem rung_ok {v : α} (h : a.result = .ok v) :
    rung display deadline attempt a = .stop (.ok v) := by
  unfold rung
  rw [h]

theorem rung_terminal (h : a.result = .error e)
    (hretry : ¬ (e.isRetryable = true ∧ attempt < MAX_TRIES)) :
    rung display deadline attempt a = .stop (.error e) := by
  unfold rung
  rw [h]
  exact if_neg hretry

/-- What a retryable failure leads to, while there are tries left. -/
theorem rung_retryable (h : a.result = .error e)
    (hretry : e.isRetryable = true ∧ attempt < MAX_TRIES) :
    rung display deadline attempt a =
      if deadline - a.finish <
          (saturatingAdd (delayAfter e attempt a.nanos) MIN_ATTEMPT_BUDGET).val then
        match e.statedRetryAfter with
        | some asked =>
          .stop (.error (.overBudgetWait (e.who display) (asSecs asked.val)
            (asSecs (deadline - a.finish)) attempt))
        | none => .stop (.error e)
      else .wait (delayAfter e attempt a.nanos) := by
  unfold rung
  rw [h]
  exact if_pos hretry

/-- What a call leads to: its own result, unless it failed retryably with tries left and either a
stated wait does not fit, or the delay does. -/
theorem rung_cases (display : EngineError → String) (deadline : Instant) (attempt : ℕ)
    (a : Try α) :
    (rung display deadline attempt a = .stop a.result ∧
      ∀ e, a.result = .error e → e.isRetryable = true → attempt < MAX_TRIES →
        e.statedRetryAfter = none) ∨
    ∃ e, a.result = .error e ∧ e.isRetryable = true ∧ attempt < MAX_TRIES ∧
      ((∃ asked, e.statedRetryAfter = some asked ∧
        deadline - a.finish < (saturatingAdd (statedDelay asked a.nanos) MIN_ATTEMPT_BUDGET).val ∧
        rung display deadline attempt a = .stop (.error (.overBudgetWait (e.who display)
          (asSecs asked.val) (asSecs (deadline - a.finish)) attempt))) ∨
      (¬ deadline - a.finish <
          (saturatingAdd (delayAfter e attempt a.nanos) MIN_ATTEMPT_BUDGET).val ∧
        rung display deadline attempt a = .wait (delayAfter e attempt a.nanos))) := by
  cases hresult : a.result with
  | ok v => exact .inl ⟨rung_ok hresult, fun e he => nomatch he⟩
  | error e =>
    by_cases hretry : e.isRetryable = true ∧ attempt < MAX_TRIES
    · rw [rung_retryable hresult hretry]
      by_cases hlate : deadline - a.finish <
          (saturatingAdd (delayAfter e attempt a.nanos) MIN_ATTEMPT_BUDGET).val
      · -- the wait would end after the deadline
        rw [if_pos hlate]
        cases hstated : e.statedRetryAfter with
        | some asked =>
          rw [delayAfter, hstated] at hlate
          exact .inr ⟨e, rfl, hretry.1, hretry.2, .inl ⟨asked, hstated, hlate, rfl⟩⟩
        | none =>
          refine .inl ⟨rfl, fun e' he' _ _ => ?_⟩
          rw [← Except.error.inj he', hstated]
      · rw [if_neg hlate]
        exact .inr ⟨e, rfl, hretry.1, hretry.2, .inr ⟨hlate, rfl⟩⟩
    · refine .inl ⟨rung_terminal hresult hretry, fun e' he' hretryable htries => ?_⟩
      rw [← Except.error.inj he'] at hretryable
      exact absurd ⟨hretryable, htries⟩ hretry

/-- A delay is kept after a retryable failure, where it fits. -/
theorem rung_eq_wait {delay : Duration} (h : rung display deadline attempt a = .wait delay) :
    ∃ e, a.result = .error e ∧ e.isRetryable = true ∧ attempt < MAX_TRIES ∧
      delay = delayAfter e attempt a.nanos ∧
      ¬ deadline - a.finish < (saturatingAdd delay MIN_ATTEMPT_BUDGET).val := by
  rcases rung_cases display deadline attempt a with ⟨hstop, -⟩ |
    ⟨e, hresult, hretry, htries, ⟨asked, -, -, hstop⟩ | ⟨hlate, hwait⟩⟩
  · rw [hstop] at h
    cases h
  · rw [hstop] at h
    cases h
  · rw [hwait] at h
    cases h
    exact ⟨e, hresult, hretry, htries, rfl, hlate⟩

end Rung

theorem lt_of_rung_wait {display : EngineError → String} {deadline : Instant} {attempt : ℕ}
    {a : Try α} {delay : Duration} (h : rung display deadline attempt a = .wait delay) :
    attempt < MAX_TRIES := by
  rcases rung_eq_wait h with ⟨e, -, -, hlt, -⟩
  exact hlt

/-- What became of a ladder: its result, its calls in order, and the clock and the world after
them. -/
structure RetryRun (α σ : Type) where
  result : Except EngineError α
  tries : List (Try α)
  now : Instant
  state : σ

/-- The loop, from an attempt on. -/
def climb (display : EngineError → String) (deadline : Instant) (f : σ → Report α × σ)
    (attempt : ℕ) (now : Instant) (s : σ) : RetryRun α σ :=
  match _h : rung display deadline attempt (tryAt f now s) with
  | .stop result => ⟨result, [tryAt f now s], (tryAt f now s).finish, (f s).2⟩
  | .wait delay =>
    let rest := climb display deadline f (attempt + 1) ((tryAt f now s).finish + delay.val) (f s).2
    { rest with tries := tryAt f now s :: rest.tries }
termination_by MAX_TRIES - attempt
decreasing_by
  have hlt := lt_of_rung_wait _h
  omega

/-- `with_retry_within`; none if it panics. -/
def withRetryWithin (display : EngineError → String) (budget : Duration) (f : σ → Report α × σ)
    (start : Instant) (s : σ) : Option (RetryRun α σ) :=
  (checkedAdd start budget).map fun deadline => climb display deadline f 1 start s

/-- `with_retry` -/
def withRetry (display : EngineError → String) (f : σ → Report α × σ) (start : Instant) (s : σ) :
    Option (RetryRun α σ) :=
  withRetryWithin display CALL_BUDGET f start s

/-- The time slept between calls. -/
def totalSlept : List (Try α) → ℕ
  | a :: b :: tries => (b.start - a.finish) + totalSlept (b :: tries)
  | _ => 0

/-! ## The bounds -/

/-- A retryable failure stated a wait that does not fit what is left before the deadline, when there
were tries left after `n` calls. -/
structure OverBudget (deadline : Instant) (n : ℕ) (a : Try α) (e : EngineError) (asked : Duration) :
    Prop where
  failed : a.result = .error e
  retryable : e.isRetryable = true
  stated : e.statedRetryAfter = some asked
  triesLeft : n < MAX_TRIES
  late : deadline <
    a.finish + asked.val + statedJitter asked a.nanos * 10 ^ 6 + MIN_ATTEMPT_BUDGET.val

/-- What a ladder returns after its last call, the `n`-th: its own terminal state exactly if that
stated a wait which does not fit, else the result of the call. -/
inductive Ended (display : EngineError → String) (deadline : Instant) (n : ℕ) (last : Try α) :
    Except EngineError α → Prop
  | overBudget {e : EngineError} {asked : Duration} : OverBudget deadline n last e asked →
      Ended display deadline n last (.error (.overBudgetWait (e.who display) (asSecs asked.val)
        (asSecs (deadline - last.finish)) n))
  | own : (∀ e asked, ¬ OverBudget deadline n last e asked) →
      Ended display deadline n last last.result

/-- A call may follow another: that failed for a passing reason, the wait it stated has elapsed, and
there is time left. -/
structure Follows (deadline : Instant) (a b : Try α) : Prop where
  retryable : ∃ e, a.result = .error e ∧ e.isRetryable = true ∧
    ∀ asked, e.statedRetryAfter = some asked → a.finish + asked.val ≤ b.start
  later : a.finish ≤ b.start
  inTime : b.start + MIN_ATTEMPT_BUDGET.val ≤ deadline

/-- A ladder keeps its bounds. -/
structure KeepsBounds (display : EngineError → String) (start : Instant) (budget : Duration)
    (run : RetryRun α σ) : Prop where
  tries_le : run.tries.length ≤ MAX_TRIES
  starts : run.tries.head?.map Try.start = some start
  spaced : run.tries.IsChain (Follows (start + budget.val))
  slept : 1 < run.tries.length → totalSlept run.tries < budget.val
  ended : ∃ last, run.tries.getLast? = some last ∧
    Ended display (start + budget.val) run.tries.length last run.result
  /-- a wait that a response can state is neither cut off nor saturated -/
  exact : ∀ a ∈ run.tries, ∀ e asked, a.result = .error e → e.statedRetryAfter = some asked →
    asked.val ≤ STATED_MAX → asMillis asked = asked.val / 10 ^ 6 ∧
      (statedDelay asked a.nanos).val = asked.val + statedJitter asked a.nanos * 10 ^ 6

/-! ## Delays -/

theorem statedJitter_le (asked : Duration) (nanos : ℕ) : statedJitter asked nanos ≤ 1000 := by
  unfold statedJitter jitter
  split_ifs with hzero
  · exact Nat.zero_le _
  · have hlt := Nat.mod_lt nanos (Nat.pos_of_ne_zero hzero)
    have hcap : min (asMillis asked) STATED_JITTER_CAP_MS ≤ 1000 := min_le_right _ _
    omega

theorem fromMillis_val {ms : ℕ} (h : ms ≤ 2 ^ 64 - 1) : (fromMillis ms).val = ms * 10 ^ 6 := by
  change min ms (2 ^ 64 - 1) * 10 ^ 6 = _
  rw [min_eq_left h]

/-- A stated delay is the wait and its jitter, as far as a duration reaches. -/
theorem statedDelay_val (asked : Duration) (nanos : ℕ) :
    (statedDelay asked nanos).val =
      min (asked.val + statedJitter asked nanos * 10 ^ 6) (2 ^ 64 * 10 ^ 9 - 1) := by
  have hjitter := statedJitter_le asked nanos
  change min (asked.val + (fromMillis (statedJitter asked nanos)).val) (2 ^ 64 * 10 ^ 9 - 1) = _
  rw [fromMillis_val (by omega)]

/-- No stated delay is shorter than the wait. -/
theorem le_statedDelay (asked : Duration) (nanos : ℕ) :
    asked.val ≤ (statedDelay asked nanos).val := by
  have hlt := asked.property
  rw [statedDelay_val]
  omega

/-- A wait that a response can state is neither cut off nor saturated. -/
theorem statedDelay_exact {asked : Duration} (h : asked.val ≤ STATED_MAX) (nanos : ℕ) :
    asMillis asked = asked.val / 10 ^ 6 ∧
      (statedDelay asked nanos).val = asked.val + statedJitter asked nanos * 10 ^ 6 := by
  have hjitter := statedJitter_le asked nanos
  have hmax : asked.val ≤ (2 ^ 64 - 1) * 10 ^ 6 := h
  constructor
  · refine Nat.mod_eq_of_lt ?_
    omega
  · rw [statedDelay_val]
    omega

section Rung

variable {display : EngineError → String} {deadline : Instant} {attempt : ℕ} {a : Try α}

@[simp] theorem saturatingAdd_val (a b : Duration) :
    (saturatingAdd a b).val = min (a.val + b.val) (2 ^ 64 * 10 ^ 9 - 1) := rfl

@[simp] theorem min_attempt_budget_val : MIN_ATTEMPT_BUDGET.val = 10 ^ 9 := rfl

/-- Another call is made after a passing failure, when the delay leaves time for it. -/
theorem rung_wait (hdeadline : deadline < INSTANT_END) {delay : Duration}
    (h : rung display deadline attempt a = .wait delay) :
    (∃ e, a.result = .error e ∧ e.isRetryable = true ∧
      ∀ asked, e.statedRetryAfter = some asked → asked.val ≤ delay.val) ∧
    a.finish + delay.val + MIN_ATTEMPT_BUDGET.val ≤ deadline := by
  rcases rung_eq_wait h with ⟨e, hresult, hretry, -, hdelay, hlate⟩
  constructor
  · refine ⟨e, hresult, hretry, ?_⟩
    intro asked hasked
    rw [hdelay, delayAfter, hasked]
    exact le_statedDelay _ _
  · have hend : deadline < 2 ^ 63 * 10 ^ 9 := hdeadline
    rw [saturatingAdd_val, min_attempt_budget_val] at hlate
    rw [min_attempt_budget_val]
    have harith : ∀ D F d : ℕ, D < 2 ^ 63 * 10 ^ 9 →
        ¬ D - F < min (d + 10 ^ 9) (2 ^ 64 * 10 ^ 9 - 1) → F + d + 10 ^ 9 ≤ D := by
      intro D F d _ _
      omega
    exact harith _ _ _ hend hlate

/-- Where the failure stated a wait, the delay does not fit exactly if it is over budget. -/
theorem stated_late_iff (hdeadline : deadline < INSTANT_END) (asked : Duration) (nanos : ℕ)
    (finish : Instant) :
    deadline - finish < (saturatingAdd (statedDelay asked nanos) MIN_ATTEMPT_BUDGET).val ↔
      deadline < finish + asked.val + statedJitter asked nanos * 10 ^ 6 + MIN_ATTEMPT_BUDGET.val := by
  have hend : deadline < 2 ^ 63 * 10 ^ 9 := hdeadline
  have harith : ∀ D F w j : ℕ, D < 2 ^ 63 * 10 ^ 9 →
      (D - F < min (min (w + j * 10 ^ 6) (2 ^ 64 * 10 ^ 9 - 1) + 10 ^ 9) (2 ^ 64 * 10 ^ 9 - 1) ↔
        D < F + w + j * 10 ^ 6 + 10 ^ 9) := by
    intro D F w j _
    omega
  rw [saturatingAdd_val, min_attempt_budget_val, statedDelay_val]
  exact harith _ _ _ _ hend

/-- Where no other call is made, the ladder has ended. -/
theorem rung_stop (hdeadline : deadline < INSTANT_END) {result : Except EngineError α}
    (h : rung display deadline attempt a = .stop result) :
    Ended display deadline attempt a result := by
  rcases rung_cases display deadline attempt a with ⟨hstop, hunstated⟩ |
    ⟨e, hresult, hretry, htries, ⟨asked, hstated, hlate, hstop⟩ | ⟨-, hwait⟩⟩
  · -- its own result: no wait was stated that a try could have followed
    rw [hstop] at h
    rw [← Rung.stop.inj h]
    refine .own ?_
    intro e asked hover
    have hnone := hunstated e hover.failed hover.retryable hover.triesLeft
    exact absurd (hnone.symm.trans hover.stated) (by simp)
  · rw [hstop] at h
    rw [← Rung.stop.inj h]
    exact .overBudget ⟨hresult, hretry, hstated, htries,
      (stated_late_iff hdeadline asked a.nanos a.finish).1 hlate⟩
  · rw [hwait] at h
    cases h

end Rung

/-! ## Runs -/

section Run

variable {display : EngineError → String} {deadline : Instant} {f : σ → Report α × σ}

theorem climb_of_stop {attempt : ℕ} {now : Instant} {s : σ} {result : Except EngineError α}
    (h : rung display deadline attempt (tryAt f now s) = .stop result) :
    climb display deadline f attempt now s =
      ⟨result, [tryAt f now s], (tryAt f now s).finish, (f s).2⟩ := by
  rw [climb]
  split
  · rename_i result' hstop
    rw [Rung.stop.inj (h.symm.trans hstop)]
  · rename_i delay hwait
    exact absurd (h.symm.trans hwait) (by simp)

theorem climb_of_wait {attempt : ℕ} {now : Instant} {s : σ} {delay : Duration}
    (h : rung display deadline attempt (tryAt f now s) = .wait delay) :
    climb display deadline f attempt now s =
      { climb display deadline f (attempt + 1) ((tryAt f now s).finish + delay.val) (f s).2 with
        tries := tryAt f now s ::
          (climb display deadline f (attempt + 1) ((tryAt f now s).finish + delay.val)
            (f s).2).tries } := by
  rw [climb]
  split
  · rename_i result' hstop
    exact absurd (h.symm.trans hstop) (by simp)
  · rename_i delay' hwait
    rw [Rung.wait.inj (h.symm.trans hwait)]

/-- What holds of a ladder from an attempt on. -/
structure Climbed (display : EngineError → String) (deadline : Instant) (attempt : ℕ)
    (now : Instant) (run : RetryRun α σ) : Prop where
  tries_le : run.tries.length + attempt ≤ MAX_TRIES + 1
  starts : run.tries.head?.map Try.start = some now
  spaced : run.tries.IsChain (Follows deadline)
  slept : 1 < run.tries.length → now + totalSlept run.tries + MIN_ATTEMPT_BUDGET.val ≤ deadline
  ended : ∃ last, run.tries.getLast? = some last ∧
    Ended display deadline (attempt + run.tries.length - 1) last run.result

/-- A ladder of one call. -/
theorem climbed_single {attempt : ℕ} {now : Instant} {run : RetryRun α σ} {last : Try α}
    (hattempt : attempt ≤ MAX_TRIES) (htries : run.tries = [last]) (hstart : last.start = now)
    (hended : Ended display deadline attempt last run.result) :
    Climbed display deadline attempt now run := by
  constructor
  · rw [htries, List.length_singleton]
    omega
  · rw [htries, ← hstart]
    rfl
  · rw [htries]
    exact .singleton _
  · intro hmore
    rw [htries] at hmore
    exact absurd hmore (lt_irrefl _)
  · rw [htries]
    exact ⟨last, rfl, hended⟩

/-- A call, and the ladder that follows it after a delay. -/
theorem climbed_cons {attempt : ℕ} {now : Instant} {a : Try α} {delay : Duration}
    {run : RetryRun α σ} (hstart : a.start = now) (hnow : now ≤ a.finish)
    (hfailed : ∃ e, a.result = .error e ∧ e.isRetryable = true ∧
      ∀ asked, e.statedRetryAfter = some asked → asked.val ≤ delay.val)
    (hfits : a.finish + delay.val + MIN_ATTEMPT_BUDGET.val ≤ deadline)
    (hrest : Climbed display deadline (attempt + 1) (a.finish + delay.val) run) :
    Climbed display deadline attempt now { run with tries := a :: run.tries } := by
  rcases htries : run.tries with _ | ⟨b, tries⟩
  · have hstarts := hrest.starts
    rw [htries] at hstarts
    exact nomatch hstarts
  · have hnext : b.start = a.finish + delay.val := by
      have hstarts := hrest.starts
      rw [htries] at hstarts
      exact Option.some.inj hstarts
    have hlen := hrest.tries_le
    have hchain := hrest.spaced
    have hslept := hrest.slept
    rcases hrest.ended with ⟨last, hlast, hended⟩
    rw [htries] at hlen hchain hslept hlast hended
    constructor
    · change (b :: tries).length + 1 + attempt ≤ _
      omega
    · exact congrArg some hstart
    · -- the wait a response stated has elapsed when the next call starts
      refine .cons_cons ⟨?_, ?_, ?_⟩ hchain
      · rcases hfailed with ⟨e, hresult, hretry, hstated⟩
        refine ⟨e, hresult, hretry, ?_⟩
        intro asked hasked
        rw [hnext]
        exact Nat.add_le_add_left (hstated asked hasked) _
      · rw [hnext]
        exact Nat.le_add_right _ _
      · rw [hnext]
        exact hfits
    · intro _
      change now + (b.start - a.finish + totalSlept (b :: tries)) + _ ≤ _
      have harith : ∀ n F d t m D : ℕ, n ≤ F → F + d + t + m ≤ D → n + (d + t) + m ≤ D := by
        intro n F d t m D _ _
        omega
      rw [hnext, Nat.add_sub_cancel_left]
      cases tries with
      | nil => exact harith _ _ _ 0 _ _ hnow hfits
      | cons c tries => exact harith _ _ _ _ _ _ hnow (hslept (Nat.one_lt_succ_succ _))
    · refine ⟨last, ?_, ?_⟩
      · change (a :: b :: tries).getLast? = some last
        rw [List.getLast?_cons_cons]
        exact hlast
      · have hcount : attempt + (a :: b :: tries).length - 1 =
            attempt + 1 + (b :: tries).length - 1 := by
          simp only [List.length_cons]
          omega
        change Ended display deadline (attempt + (a :: b :: tries).length - 1) last run.result
        rw [hcount]
        exact hended

/-- **Every ladder is bounded**, call by call. -/
theorem climb_bounded (hdeadline : deadline < INSTANT_END) (attempt : ℕ) (now : Instant) (s : σ)
    (hattempt : attempt ≤ MAX_TRIES) :
    Climbed display deadline attempt now (climb display deadline f attempt now s) := by
  induction attempt, now, s using climb.induct display deadline f with
  | case1 attempt now s result hstop =>
    rw [climb_of_stop hstop]
    exact climbed_single hattempt rfl rfl (rung_stop hdeadline hstop)
  | case2 attempt now s delay hwait ih =>
    rcases rung_wait hdeadline hwait with ⟨hfailed, hfits⟩
    rw [climb_of_wait hwait]
    exact climbed_cons rfl (Nat.le_add_right _ _) hfailed hfits (ih (lt_of_rung_wait hwait))

/-- The deadline of a ladder can be represented, or it panics. -/
theorem withRetryWithin_eq_some {budget : Duration} {start : Instant}
    (hdeadline : start + budget.val < INSTANT_END) (s : σ) :
    withRetryWithin display budget f start s =
      some (climb display (start + budget.val) f 1 start s) := by
  unfold withRetryWithin checkedAdd
  rw [if_pos hdeadline]
  rfl

/-- A ladder that does not panic is climbed before a deadline that can be represented. -/
theorem eq_climb_of_withRetryWithin {budget : Duration} {start : Instant} {s : σ}
    {run : RetryRun α σ} (h : withRetryWithin display budget f start s = some run) :
    start + budget.val < INSTANT_END ∧ run = climb display (start + budget.val) f 1 start s := by
  unfold withRetryWithin checkedAdd at h
  by_cases hdeadline : start + budget.val < INSTANT_END
  · rw [if_pos hdeadline] at h
    exact ⟨hdeadline, (Option.some.inj h).symm⟩
  · rw [if_neg hdeadline] at h
    cases h

theorem eq_climb_of_withRetry {start : Instant} {s : σ} {run : RetryRun α σ}
    (h : withRetry display f start s = some run) :
    ∃ deadline, deadline < INSTANT_END ∧ run = climb display deadline f 1 start s :=
  ⟨_, eq_climb_of_withRetryWithin h⟩

/-- A call that does not fail for a passing reason is the only one. -/
theorem withRetry_of_settled {start : Instant} {s : σ}
    (hdeadline : start + CALL_BUDGET.val < INSTANT_END)
    (h : ∀ e, (f s).1.result = .error e → e.isRetryable = false) :
    withRetry display f start s =
      some ⟨(f s).1.result, [tryAt f start s], start + (f s).1.elapsed, (f s).2⟩ := by
  have hrung : rung display (start + CALL_BUDGET.val) 1 (tryAt f start s) =
      .stop (f s).1.result := by
    cases hresult : (f s).1.result with
    | ok v => exact rung_ok hresult
    | error e =>
      refine rung_terminal hresult ?_
      rw [h e hresult]
      exact fun hretry => Bool.false_ne_true hretry.1
  exact (withRetryWithin_eq_some hdeadline s).trans (congrArg some (climb_of_stop hrung))

/-- **A ladder returns what its last call came to**, or its own terminal state. What passing
failures keep of the world holds when that call is made. -/
theorem climb_last (hdeadline : deadline < INSTANT_END) {I : σ → Prop}
    (hstep : ∀ s e, I s → (f s).1.result = .error e → e.isRetryable = true → I (f s).2)
    (attempt : ℕ) (now : Instant) (s : σ) (hI : I s) :
    ∃ s', I s' ∧ (climb display deadline f attempt now s).state = (f s').2 ∧
      ((climb display deadline f attempt now s).result = (f s').1.result ∨
        ∃ who asked remaining n, (climb display deadline f attempt now s).result =
          .error (.overBudgetWait who asked remaining n)) := by
  induction attempt, now, s using climb.induct display deadline f with
  | case1 attempt now s result hstop =>
    rw [climb_of_stop hstop]
    refine ⟨s, hI, rfl, ?_⟩
    cases rung_stop hdeadline hstop with
    | own _ => exact .inl rfl
    | overBudget _ => exact .inr ⟨_, _, _, _, rfl⟩
  | case2 attempt now s delay hwait ih =>
    rcases rung_eq_wait hwait with ⟨e, hresult, hretry, -, -, -⟩
    rw [climb_of_wait hwait]
    exact ih (hstep s e hI hresult hretry)

/-- **The ladder keeps both bounds**, and says which one stopped it: whatever the calls come to,
however long they take and whatever the clock noise, where the deadline can be represented. -/
theorem withRetryWithin_keepsBounds (display : EngineError → String) (budget : Duration)
    (f : σ → Report α × σ) (start : Instant) (s : σ)
    (hdeadline : start + budget.val < INSTANT_END) :
    ∃ run, withRetryWithin display budget f start s = some run ∧
      KeepsBounds display start budget run := by
  have hclimbed : Climbed display (start + budget.val) 1 start
      (climb display (start + budget.val) f 1 start s) :=
    climb_bounded hdeadline 1 start s (by decide)
  refine ⟨_, withRetryWithin_eq_some hdeadline s, ?_⟩
  have hlen := hclimbed.tries_le
  rcases hclimbed.ended with ⟨last, hlast, hended⟩
  rw [Nat.add_sub_cancel_left] at hended
  refine ⟨by omega, hclimbed.starts, hclimbed.spaced, ?_, ⟨last, hlast, hended⟩, ?_⟩
  · intro hmore
    have hslept := hclimbed.slept hmore
    rw [min_attempt_budget_val] at hslept
    have harith : ∀ n t b : ℕ, n + t + 10 ^ 9 ≤ n + b → t < b := by
      intro n t b _
      omega
    exact harith _ _ _ hslept
  · intro a _ e asked _ _ hstated
    exact statedDelay_exact hstated a.nanos

end Run

/-- A call that answers at once. -/
def answersAtOnce (_ : Unit) : Report ℕ × Unit := (⟨.ok 42, 0, 0⟩, ())

/-- The theorem at a call that answers at once. -/
theorem answersAtOnce_keepsBounds :
    ∃ run, withRetryWithin (fun _ => "") CALL_BUDGET answersAtOnce 0 () = some run ∧
      KeepsBounds (fun _ => "") 0 CALL_BUDGET run :=
  withRetryWithin_keepsBounds (fun _ => "") CALL_BUDGET answersAtOnce 0 () (by decide)

/-- The longest duration. -/
def DURATION_MAX : Duration := ⟨2 ^ 64 * 10 ^ 9 - 1, by omega⟩

/-- A call that fails with the terminal state of another ladder. -/
def failsOverBudget (_ : Unit) : Report ℕ × Unit :=
  (⟨.error (.overBudgetWait "p" 300 60 1), 0, 0⟩, ())

/-- **Where the bounds end**: no deadline lies the longest duration ahead, a budget of zero is not
above the nothing slept, and a call may return the terminal state by itself. -/
theorem budget_corner_cases :
    withRetryWithin (fun _ => "") DURATION_MAX answersAtOnce 0 () = none ∧
    (∃ run, withRetryWithin (fun _ => "") ⟨0, by decide⟩ answersAtOnce 0 () = some run ∧
      ¬ totalSlept run.tries < 0) ∧
    ∃ run, withRetryWithin (fun _ => "") CALL_BUDGET failsOverBudget 0 () = some run ∧
      run.result = .error (.overBudgetWait "p" 300 60 1) ∧
      ∀ a ∈ run.tries, ∀ e, a.result = .error e → e.isRetryable = false := by
  refine ⟨by decide, ⟨_, withRetryWithin_eq_some (by decide) (), ?_⟩, _,
    withRetryWithin_eq_some (by decide) (), ?_⟩
  · exact Nat.not_lt_zero _
  · have hstop : rung (fun _ => "") (0 + CALL_BUDGET.val) 1 (tryAt failsOverBudget 0 ()) =
        .stop (.error (.overBudgetWait "p" 300 60 1)) := rung_terminal rfl (by decide)
    rw [climb_of_stop hstop]
    refine ⟨rfl, ?_⟩
    intro a ha e he
    rw [List.mem_singleton.1 ha] at he
    rw [← Except.error.inj he]
    rfl

end LightTrack.Engine
