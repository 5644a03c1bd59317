import LightTrack.Core.Limits
import LightTrack.Lib.Stretch
import Mathlib.Algebra.BigOperators.Group.List.Basic

/-! # Replaying a candidate rule

A candidate is walked through the production evaluator over a series of past instants, and
consecutive breached steps are folded into episodes.

* `timeline_replay` : each step is the evaluator's answer to its own sample,
* `wouldBreach_replay` : the verdict is about some sample,
* `sum_steps_episodes` : the episodes cover every breached step once.
-/

namespace LightTrack

/-- Rolling usage at one sampled instant. -/
structure BacktestSample where
  instant : Time
  current : ℚ
  calls : Int
  costUsd : ℚ
  costEvidence : Option CostEvidence
  deriving DecidableEq

/-- One step of the replayed timeline. -/
structure BacktestStep where
  instant : Time
  current : ℚ
  ratio : WithTop ℚ
  shedFraction : ℚ
  warning : Bool
  breached : Bool
  calls : Int
  costUsd : ℚ
  deriving DecidableEq

/-- A run of consecutive breached steps. -/
structure BacktestEpisode where
  firstAt : Time
  lastAt : Time
  peakRatio : WithTop ℚ
  steps : ℕ
  calls : Int
  costUsd : ℚ
  deriving DecidableEq

/-- The replay's verdict. -/
structure Backtest where
  wouldBreach : Bool
  peakRatio : WithTop ℚ
  breachedSteps : ℕ
  episodes : List BacktestEpisode
  timeline : List BacktestStep
  deriving DecidableEq

/-- The episode a breached step opens. -/
def BacktestEpisode.start (s : BacktestStep) : BacktestEpisode where
  firstAt := s.instant
  lastAt := s.instant
  peakRatio := s.ratio
  steps := 1
  calls := s.calls
  costUsd := s.costUsd

/-- An open episode, extended by a breached step. A higher ratio moves the peak. -/
def BacktestEpisode.extend (e : BacktestEpisode) (s : BacktestStep) : BacktestEpisode :=
  let longer := { e with lastAt := s.instant, steps := e.steps + 1 }
  if e.peakRatio < s.ratio then
    { longer with peakRatio := s.ratio, calls := s.calls, costUsd := s.costUsd }
  else longer

/-- `episodes`, from an episode that may be open. -/
def episodesFrom (current : Option BacktestEpisode) : List BacktestStep → List BacktestEpisode
  | [] => current.toList
  | s :: rest =>
    if !s.breached then current.toList ++ episodesFrom none rest
    else
      match current with
      | none => episodesFrom (some (.start s)) rest
      | some e => episodesFrom (some (e.extend s)) rest

/-- Fold consecutive breached steps into episodes. -/
def episodes (timeline : List BacktestStep) : List BacktestEpisode := episodesFrom none timeline

/-- What the rule would have said at one sample. -/
def replayStep (rule : LimitRule) (threshold : WithTop ℚ) (basis : ThresholdBasis)
    (s : BacktestSample) : BacktestStep :=
  let st := rule.evaluateResolvedAt s.current threshold basis s.costEvidence s.instant
  { instant := s.instant
    current := st.current
    ratio := st.ratio
    shedFraction := st.shedFraction
    warning := st.warning
    breached := st.breached
    calls := s.calls
    costUsd := s.costUsd }

/-- Replay `rule` against `samples`, each at its own instant. -/
def replay (rule : LimitRule) (threshold : WithTop ℚ) (basis : ThresholdBasis)
    (samples : List BacktestSample) : Backtest :=
  let timeline := samples.map (replayStep rule threshold basis)
  let breachedSteps := (timeline.filter BacktestStep.breached).length
  { wouldBreach := decide (0 < breachedSteps)
    -- the ratios of unbounded size do not count
    peakRatio := ((timeline.map BacktestStep.ratio).filter fun r => decide (r < ⊤)).foldl max 0
    breachedSteps
    episodes := episodes timeline
    timeline }

/-! ## What a replay says -/

theorem timeline_replay (rule : LimitRule) (threshold : WithTop ℚ) (basis : ThresholdBasis)
    (samples : List BacktestSample) :
    (replay rule threshold basis samples).timeline = samples.map (replayStep rule threshold basis) :=
  rfl

/-- The candidate would have breached exactly when some sample reaches the threshold. -/
theorem wouldBreach_replay (rule : LimitRule) (threshold : WithTop ℚ) (basis : ThresholdBasis)
    (samples : List BacktestSample) :
    (replay rule threshold basis samples).wouldBreach = true ↔
      ∃ s ∈ samples, threshold ≤ (s.current : WithTop ℚ) := by
  unfold replay
  simp only [decide_eq_true_eq, List.length_pos_iff_exists_mem, List.mem_filter, List.mem_map]
  constructor
  · intro h
    rcases h with ⟨step, ⟨s, hs, hstep⟩, hbreached⟩
    rw [← hstep] at hbreached
    exact ⟨s, hs, of_decide_eq_true hbreached⟩
  · intro h
    rcases h with ⟨s, hs, hle⟩
    exact ⟨_, ⟨s, hs, rfl⟩, decide_eq_true hle⟩

theorem steps_extend (e : BacktestEpisode) (s : BacktestStep) :
    (e.extend s).steps = e.steps + 1 := by
  unfold BacktestEpisode.extend
  split_ifs <;> rfl

/-- The episodes still to come cover the open one and every breached step left. -/
theorem sum_steps_episodesFrom (current : Option BacktestEpisode) (timeline : List BacktestStep) :
    ((episodesFrom current timeline).map BacktestEpisode.steps).sum =
      (current.map BacktestEpisode.steps).getD 0 +
        (timeline.filter BacktestStep.breached).length := by
  induction timeline generalizing current with
  | nil => cases current <;> simp [episodesFrom]
  | cons s rest ih =>
    unfold episodesFrom
    cases hs : s.breached with
    | false =>
      -- the gap closes what is open
      rw [List.filter_cons_of_neg (by simp [hs]), Bool.not_false, if_pos rfl, List.map_append,
        List.sum_append, ih]
      cases current <;> simp
    | true =>
      rw [List.filter_cons_of_pos hs, Bool.not_true, if_neg Bool.false_ne_true, List.length_cons]
      cases current with
      | none =>
        rw [ih]
        simp only [Option.map_some, Option.getD_some, Option.map_none, Option.getD_none,
          BacktestEpisode.start]
        omega
      | some e =>
        rw [ih]
        simp only [Option.map_some, Option.getD_some, steps_extend]
        omega

/-- **The episodes cover every breached step, each once.** -/
theorem sum_steps_episodes (rule : LimitRule) (threshold : WithTop ℚ) (basis : ThresholdBasis)
    (samples : List BacktestSample) :
    (((replay rule threshold basis samples).episodes).map BacktestEpisode.steps).sum =
      (replay rule threshold basis samples).breachedSteps := by
  have h := sum_steps_episodesFrom none (samples.map (replayStep rule threshold basis))
  simpa [replay, episodes] using h

/-! ## The episodes of a replay

* `episodes_eq` : the fold over the timeline summarizes its maximal breached stretches,
* `describes_summary` : what an episode says of its own steps,
* `replay_partitions` : the episodes of a replay partition its breach.
-/

/-- An episode says of its steps where they begin and end, how many they are, and what the figures
are at one of the highest ratio. -/
structure BacktestEpisode.Describes (e : BacktestEpisode) (steps : List BacktestStep) : Prop where
  first : steps.head?.map BacktestStep.instant = some e.firstAt
  last : steps.getLast?.map BacktestStep.instant = some e.lastAt
  count : steps.length = e.steps
  peak : ∃ s ∈ steps, (∀ t ∈ steps, t.ratio ≤ s.ratio) ∧
    e.peakRatio = s.ratio ∧ e.calls = s.calls ∧ e.costUsd = s.costUsd

namespace BacktestEpisode

theorem describes_start (s : BacktestStep) : (start s).Describes [s] := by
  refine ⟨rfl, rfl, rfl, s, List.mem_singleton_self s, ?_, rfl, rfl, rfl⟩
  intro t ht
  rw [List.mem_singleton.1 ht]

/-- A step that extends an episode takes the peak when its ratio is above all before. -/
theorem Describes.extend {e : BacktestEpisode} {steps : List BacktestStep} (h : e.Describes steps)
    (s : BacktestStep) : (e.extend s).Describes (steps ++ [s]) := by
  obtain ⟨hfirst, -, hcount, top, htop, hmax, hratio, hcalls, hcost⟩ := h
  have hhead : (steps ++ [s]).head? = steps.head? := by
    cases steps with
    | nil => exact absurd htop List.not_mem_nil
    | cons x xs => rfl
  have hlast : ((steps ++ [s]).getLast?).map BacktestStep.instant = some s.instant := by
    rw [List.getLast?_concat, Option.map_some]
  have hlength : (steps ++ [s]).length = e.steps + 1 := by
    rw [List.length_append, List.length_singleton, hcount]
  unfold BacktestEpisode.extend
  split_ifs with hlt
  · refine ⟨hhead ▸ hfirst, hlast, hlength, s, List.mem_append_right _ (List.mem_singleton_self s),
      ?_, rfl, rfl, rfl⟩
    intro t ht
    rcases List.mem_append.1 ht with ht | ht
    · exact (hmax t ht).trans (hratio ▸ hlt.le)
    · rw [List.mem_singleton.1 ht]
  · refine ⟨hhead ▸ hfirst, hlast, hlength, top, List.mem_append_left _ htop, ?_, hratio, hcalls,
      hcost⟩
    intro t ht
    rcases List.mem_append.1 ht with ht | ht
    · exact hmax t ht
    · rw [List.mem_singleton.1 ht, ← hratio]
      exact not_lt.1 hlt

theorem describes_foldl {e : BacktestEpisode} {before : List BacktestStep} (h : e.Describes before)
    (steps : List BacktestStep) : (steps.foldl extend e).Describes (before ++ steps) := by
  induction steps generalizing e before with
  | nil =>
    rw [List.append_nil]
    exact h
  | cons s steps ih =>
    have hnext := ih (h.extend s)
    rwa [List.append_assoc] at hnext

theorem describes_summary {steps : List BacktestStep} {e : BacktestEpisode}
    (h : Stretch.summary start extend steps = some e) : e.Describes steps := by
  cases steps with
  | nil => cases h
  | cons s steps =>
    rw [← Option.some.inj h]
    exact describes_foldl (describes_start s) steps

end BacktestEpisode

theorem episodesFrom_eq (current : Option BacktestEpisode) (timeline : List BacktestStep) :
    episodesFrom current timeline =
      Stretch.gather BacktestStep.breached .start BacktestEpisode.extend current timeline := by
  induction timeline generalizing current with
  | nil => rfl
  | cons s rest ih =>
    unfold episodesFrom Stretch.gather
    cases s.breached with
    | false =>
      rw [Bool.not_false, if_pos rfl, if_neg Bool.false_ne_true, ih]
    | true =>
      rw [Bool.not_true, if_neg Bool.false_ne_true, if_pos rfl]
      cases current with
      | none => exact ih _
      | some e => exact ih _

theorem episodes_eq (timeline : List BacktestStep) :
    (episodes timeline).map some = (Stretch.ranges BacktestStep.breached timeline).map fun r =>
      Stretch.summary .start BacktestEpisode.extend (Stretch.slice timeline r) := by
  unfold episodes
  rw [episodesFrom_eq, Stretch.gather_eq]

/-- The episodes of a replay, against its timeline. -/
structure Backtest.Partitions (b : Backtest) : Prop where
  /-- Each episode describes one maximal breached stretch, in order and apart. -/
  stretches : ∃ ranges : List (ℕ × ℕ),
    (∀ r, r ∈ ranges ↔ Stretch.Maximal BacktestStep.breached b.timeline r) ∧
    (ranges.Pairwise fun r t => r.2 < t.1) ∧
    List.Forall₂ (fun r e => e.Describes (Stretch.slice b.timeline r)) ranges b.episodes
  count : (b.episodes.map BacktestEpisode.steps).sum = b.breachedSteps
  breached : b.breachedSteps = b.timeline.countP BacktestStep.breached

/-- **The episodes of a replay partition its breach.** -/
theorem replay_partitions (rule : LimitRule) (threshold : WithTop ℚ) (basis : ThresholdBasis)
    (samples : List BacktestSample) : (replay rule threshold basis samples).Partitions := by
  refine ⟨⟨Stretch.ranges BacktestStep.breached (replay rule threshold basis samples).timeline,
    fun r => Stretch.mem_ranges_iff, Stretch.pairwise_ranges _ _, ?_⟩, ?_, ?_⟩
  · have heq := episodes_eq (replay rule threshold basis samples).timeline
    -- range by range, the episode is the summary of its stretch
    have hsummaries := List.forall₂_eq_eq_eq ▸ heq
    rw [List.forall₂_map_left_iff, List.forall₂_map_right_iff] at hsummaries
    exact (hsummaries.imp fun e r h => BacktestEpisode.describes_summary h.symm).flip
  · exact sum_steps_episodes rule threshold basis samples
  · exact List.countP_eq_length_filter.symm

end LightTrack
