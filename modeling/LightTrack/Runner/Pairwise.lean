import LightTrack.Core.Clock
import LightTrack.Engine.Pairwise
import LightTrack.Lib.RoundRobin
import Mathlib.Algebra.Order.BigOperators.Group.Finset
import Mathlib.Algebra.Order.BigOperators.Group.List

/-! # The pairwise ranking

Every two targets meet on every case.  A game that cannot be played, or that the judge fails, is
excluded for both; the others are won, lost or tied, and the counters of the standings and the
head-to-head matrix are 32 bits wide.

* `runPairwiseMatrix_eq`, `countOf_seen` : a target's counter is a sum over its own games,
* `lawful_of_counts` : the counters add up,
* `permuted_of_counts` : they do not depend on the order of the targets,
* `pairwise_lawful` : all of it, where the games fit the counters,
* `excluded_wraps` : a ranking where they do not.
-/

namespace LightTrack.Runner

open Engine

/-! ## Definitions -/

/-- A case and the two targets that meet on it, the earlier one first. -/
structure Game (nT nC : ℕ) where
  ci : Fin nC
  i : Fin nT
  j : Fin nT

/-- The part of a benchmark case that the judge is shown. -/
structure PairCase where
  input : String
  expected : Option String

/-- `Standing` -/
@[ext]
structure Standing where
  wins : UInt32
  losses : UInt32
  ties : UInt32
  positionalTies : UInt32
  excluded : UInt32
  deriving DecidableEq

namespace Standing

/-- `Standing::games` -/
def games (checks : Bool) (s : Standing) : Except Overflow UInt32 := do
  let g ← addU32 checks s.wins s.losses
  addU32 checks g s.ties

/-- `Standing::win_rate` -/
def winRate (checks : Bool) (s : Standing) : Except Overflow ℚ := do
  let g ← s.games checks
  pure (if g = 0 then 1 / 2 else (s.wins.toNat + 1 / 2 * s.ties.toNat) / g.toNat)

end Standing

/-- The counters of the standings and of the head-to-head matrix. -/
inductive Counter (nT : ℕ) where
  | wins (i : Fin nT)
  | losses (i : Fin nT)
  | ties (i : Fin nT)
  | positionalTies (i : Fin nT)
  | excluded (i : Fin nT)
  | beats (i j : Fin nT)
  | bias
  deriving DecidableEq

/-- Standings, head-to-head matrix and the count of biased games. -/
structure Tally (nT : ℕ) where
  standings : Fin nT → Standing
  beats : Fin nT → Fin nT → UInt32
  biasCount : UInt32

section Tally

variable {nT nC : ℕ}

/-- The counters a game that is not judged adds one to. -/
def excludedBumps (g : Game nT nC) : List (Counter nT) := [.excluded g.i, .excluded g.j]

/-- The counters a judged game adds one to. -/
def gameBumps (g : Game nT nC) (w : PairwiseWinner × Bool) : List (Counter nT) :=
  (if w.2 then [.bias, .positionalTies g.i, .positionalTies g.j] else []) ++
    match w.1 with
    | .a => [.wins g.i, .losses g.j, .beats g.i g.j]
    | .b => [.wins g.j, .losses g.i, .beats g.j g.i]
    | .tie => [.ties g.i, .ties g.j]

/-- One is added to each counter. -/
def bumpAll (checks : Bool) (bumps : List (Counter nT)) (counts : Counter nT → UInt32) :
    Except Overflow (Counter nT → UInt32) :=
  bumps.foldlM (fun counts c => do
    let v ← addU32 checks (counts c) 1
    pure (Function.update counts c v)) counts

/-- The counters, read. -/
def tallyOf (counts : Counter nT → UInt32) : Tally nT where
  standings := fun i =>
    { wins := counts (.wins i)
      losses := counts (.losses i)
      ties := counts (.ties i)
      positionalTies := counts (.positionalTies i)
      excluded := counts (.excluded i) }
  beats := fun i j => counts (.beats i j)
  biasCount := counts .bias

/-- `tally` -/
def tally (checks : Bool) (games : List (Game nT nC)) (winners : List (PairwiseWinner × Bool))
    (excluded : List (Game nT nC)) : Except Overflow (Tally nT) := do
  let counts ← bumpAll checks (excluded.flatMap excludedBumps ++
    (games.zip winners).flatMap fun x => gameBumps x.1 x.2) fun _ => 0
  pure (tallyOf counts)

/-- The round robin of every case, in the order of the loops. -/
def scheduled (nT nC : ℕ) : List (Game nT nC) :=
  (List.finRange nC).flatMap fun ci =>
    (List.finRange nT).flatMap fun i => (RoundRobin.later i).map fun j => ⟨ci, i, j⟩

/-- `round_robin_games` -/
def roundRobinGames (nT nC : ℕ) : ℕ := nC * nT * (nT - 1) / 2

/-- The fold over the judged games: those played, their winners, and those excluded. -/
structure Played (nT nC : ℕ) where
  played : List (Game nT nC)
  winners : List (PairwiseWinner × Bool)
  excluded : List (Game nT nC)

/-- A failed game is dropped and charged to both sides. -/
def foldGame (st : Played nT nC) (x : Game nT nC × Except EngineError PairwiseOutcome) :
    Played nT nC :=
  match x.2 with
  | .ok o =>
    { st with played := st.played ++ [x.1], winners := st.winners ++ [(o.winner, o.positionBias)] }
  | .error _ => { st with excluded := st.excluded ++ [x.1] }

section Matrix

variable (env : PairwiseEnv) (generate : String → Except EngineError GenOutcome)
  (criteria : Option String) (cases : Fin nC → PairCase)

/-- The judge's outcome of a game between two answers. -/
def judgeGame (ci : Fin nC) (answerA answerB : String) : Except EngineError PairwiseOutcome :=
  runPairwise env generate (cases ci).input (cases ci).expected answerA answerB criteria

/-- Both candidates of a game are there. -/
def playable (output : Fin nT → Fin nC → Option String) (g : Game nT nC) : Bool :=
  (output g.i g.ci).isSome && (output g.j g.ci).isSome

/-- `run_pairwise_matrix`, from the generated candidates to the tally; `parallel_map` answers in the
order of the games. -/
def runPairwiseMatrix (checks : Bool) (output : Fin nT → Fin nC → Option String) :
    Except Overflow (Tally nT) :=
  let games := (scheduled nT nC).filter (playable output)
  let excluded := (scheduled nT nC).filter fun g => !playable output g
  let outcomes := games.map fun g =>
    judgeGame env generate criteria cases g.ci ((output g.i g.ci).getD "")
      ((output g.j g.ci).getD "")
  let st := (games.zip outcomes).foldl foldGame ⟨[], [], excluded⟩
  tally checks st.played st.winners st.excluded

/-- The result of a game between two targets, if there is one. -/
def resultOf (output : Fin nT → Fin nC → Option String) (ci : Fin nC) (x y : Fin nT) :
    Option (PairwiseWinner × Bool) :=
  (output x ci).bind fun a => (output y ci).bind fun b =>
    decided (judgeGame env generate criteria cases ci a b)

end Matrix

/-- What is promised of a tally of so many cases. -/
structure LawfulTally (checks : Bool) (nC : ℕ) (t : Tally nT) : Prop where
  complete : ∀ x, (t.standings x).wins.toNat + (t.standings x).losses.toNat +
    (t.standings x).ties.toNat + (t.standings x).excluded.toNat = (nT - 1) * nC
  positional : ∀ x, (t.standings x).positionalTies.toNat ≤ (t.standings x).ties.toNat
  rows : ∀ x, ∑ y, (t.beats x y).toNat = (t.standings x).wins.toNat
  columns : ∀ y, ∑ x, (t.beats x y).toNat = (t.standings y).losses.toNat
  balanced : ∑ x, (t.standings x).wins.toNat = ∑ x, (t.standings x).losses.toNat
  rate : ∀ x, ∃ r, (t.standings x).winRate checks = .ok r ∧ 0 ≤ r ∧ r ≤ 1

/-- What is promised of the ranking of some targets' outputs: a game is the same from either side, a
judge of positions decides none, and the tally is lawful and follows the order of the targets. -/
structure LawfulMatrix (env : PairwiseEnv) (generate : String → Except EngineError GenOutcome)
    (criteria : Option String) (cases : Fin nC → PairCase) (checks : Bool)
    (output : Fin nT → Fin nC → Option String) : Prop where
  swap : ∀ ci a b, decided (judgeGame env generate criteria cases ci b a) =
    (decided (judgeGame env generate criteria cases ci a b)).map mirror
  tally : ∃ t, runPairwiseMatrix env generate criteria cases checks output = .ok t ∧
    LawfulTally checks nC t ∧
    (∀ w, (∀ ci first second v, verdictShown env (fun _ => generate) 0 (cases ci).input
        (cases ci).expected first second criteria = some v → v.winner = w) →
      (∀ ci a b r, decided (judgeGame env generate criteria cases ci a b) = some r → r.1 = .tie) ∧
        ∀ x, (t.standings x).wins = 0 ∧ (t.standings x).losses = 0) ∧
    ∀ σ : Equiv.Perm (Fin nT), ∃ t',
      runPairwiseMatrix env generate criteria cases checks (fun i => output (σ i)) = .ok t' ∧
        (∀ x, t'.standings x = t.standings (σ x)) ∧ ∀ x y, t'.beats x y = t.beats (σ x) (σ y)

/-! ## Counters -/

section Counters

variable {checks : Bool} {bumps : List (Counter nT)} {counts : Counter nT → UInt32}

/-- **A counter is how often it is bumped**, as long as no checked counter overflows. -/
theorem bumpAll_eq (h : checks = true → ∀ c, (counts c).toNat + bumps.count c < 2 ^ 32) :
    bumpAll checks bumps counts = .ok fun c => counts c + UInt32.ofNat (bumps.count c) := by
  unfold bumpAll
  induction bumps generalizing counts with
  | nil =>
    change Except.ok counts = _
    refine congrArg Except.ok (funext fun c => ?_)
    exact (UInt32.add_zero _).symm
  | cons b bumps ih =>
    have hone : checks = true → (counts b).toNat + (1 : UInt32).toNat < 2 ^ 32 := by
      intro hc
      have hb := h hc b
      -- the first bump fits
      rw [List.count_cons_self] at hb
      change (counts b).toNat + 1 < 2 ^ 32
      omega
    rw [List.foldlM_cons, addU32_of_fits hone]
    change List.foldlM _ (Function.update counts b (counts b + 1)) bumps = _
    rw [ih]
    · refine congrArg Except.ok (funext fun c => ?_)
      -- the counter that was bumped has one bump less to come
      by_cases hcb : c = b
      · rw [hcb, Function.update_self, List.count_cons_self, UInt32.ofNat_add, UInt32.add_assoc,
          UInt32.add_comm 1]
        rfl
      · rw [Function.update_of_ne hcb, List.count_cons_of_ne (Ne.symm hcb)]
    · intro hc c
      have hcount := h hc c
      by_cases hcb : c = b
      · rw [hcb, Function.update_self, UInt32.toNat_add, Nat.mod_eq_of_lt (hone hc)]
        rw [hcb, List.count_cons_self] at hcount
        change (counts b).toNat + 1 + bumps.count b < 2 ^ 32
        omega
      · rw [Function.update_of_ne hcb]
        rwa [List.count_cons_of_ne (Ne.symm hcb)] at hcount

end Counters

/-! ## Games and their counters -/

/-- What a game counts, by its result. -/
def outcomeBumps (g : Game nT nC) (r : Option (PairwiseWinner × Bool)) : List (Counter nT) :=
  match r with
  | none => excludedBumps g
  | some w => gameBumps g w

def won (r : Option (PairwiseWinner × Bool)) : ℕ := if r.map Prod.fst = some .a then 1 else 0

def lost (r : Option (PairwiseWinner × Bool)) : ℕ := if r.map Prod.fst = some .b then 1 else 0

def tied (r : Option (PairwiseWinner × Bool)) : ℕ := if r.map Prod.fst = some .tie then 1 else 0

def flipped (r : Option (PairwiseWinner × Bool)) : ℕ := if r.map Prod.snd = some true then 1 else 0

def missing (r : Option (PairwiseWinner × Bool)) : ℕ := if r = none then 1 else 0

/-- A judged game is won, lost or tied; another is missing. -/
theorem sum_views (r : Option (PairwiseWinner × Bool)) :
    won r + lost r + tied r + missing r = 1 := by
  rcases r with _ | ⟨_ | _ | _, _⟩ <;> rfl

theorem flipped_le (r : Option (PairwiseWinner × Bool)) : flipped r ≤ 1 := by
  unfold flipped
  split_ifs <;> decide

/-- The counter is one of a target's: a game adds to it what the target sees of the result, from its
own side and against its opponent. -/
def SeenBy (nC : ℕ) (c : Counter nT) (x : Fin nT)
    (view : Fin nT → Option (PairwiseWinner × Bool) → ℕ) : Prop :=
  ∀ (g : Game nT nC) r, (outcomeBumps g r).count c =
    (if g.i = x then view g.j r else 0) + if g.j = x then view g.i (r.map mirror) else 0

theorem seenBy_wins (x : Fin nT) : SeenBy nC (.wins x) x fun _ => won := by
  rintro ⟨ci, i, j⟩ (_ | ⟨_ | _ | _, _ | _⟩) <;>
    simp [outcomeBumps, excludedBumps, gameBumps, won, mirror, unswap, List.count_cons]

theorem seenBy_losses (x : Fin nT) : SeenBy nC (.losses x) x fun _ => lost := by
  rintro ⟨ci, i, j⟩ (_ | ⟨_ | _ | _, _ | _⟩) <;>
    simp [outcomeBumps, excludedBumps, gameBumps, lost, mirror, unswap, List.count_cons]

theorem seenBy_ties (x : Fin nT) : SeenBy nC (.ties x) x fun _ => tied := by
  rintro ⟨ci, i, j⟩ (_ | ⟨_ | _ | _, _ | _⟩) <;>
    simp [outcomeBumps, excludedBumps, gameBumps, tied, mirror, unswap, List.count_cons,
      add_comm]

theorem seenBy_positionalTies (x : Fin nT) : SeenBy nC (.positionalTies x) x fun _ => flipped := by
  rintro ⟨ci, i, j⟩ (_ | ⟨_ | _ | _, _ | _⟩) <;>
    simp [outcomeBumps, excludedBumps, gameBumps, flipped, mirror, unswap, List.count_cons,
      add_comm]

theorem seenBy_excluded (x : Fin nT) : SeenBy nC (.excluded x) x fun _ => missing := by
  rintro ⟨ci, i, j⟩ (_ | ⟨_ | _ | _, _ | _⟩) <;>
    simp [outcomeBumps, excludedBumps, gameBumps, missing, mirror, unswap, List.count_cons,
      add_comm]

theorem seenBy_beats (x y : Fin nT) :
    SeenBy nC (.beats x y) x fun z r => if z = y then won r else 0 := by
  rintro ⟨ci, i, j⟩ (_ | ⟨_ | _ | _, _ | _⟩) <;>
    simp [outcomeBumps, excludedBumps, gameBumps, won, mirror, unswap, List.count_cons,
      ← ite_and, and_comm]

theorem count_bias_le (g : Game nT nC) (r : Option (PairwiseWinner × Bool)) :
    (outcomeBumps g r).count .bias ≤ 1 := by
  rcases r with _ | ⟨_ | _ | _, _ | _⟩ <;> simp [outcomeBumps, excludedBumps, gameBumps]

/-- What the fold's lists count. -/
def Played.bumps (st : Played nT nC) : List (Counter nT) :=
  st.excluded.flatMap excludedBumps ++
    (st.played.zip st.winners).flatMap fun x => gameBumps x.1 x.2

/-- One round of the fold keeps the winners beside their games and counts the game's outcome. -/
theorem foldGame_spec {st : Played nT nC} (haligned : st.played.length = st.winners.length)
    (x : Game nT nC × Except EngineError PairwiseOutcome) :
    (foldGame st x).played.length = (foldGame st x).winners.length ∧
      (foldGame st x).bumps.Perm (st.bumps ++ outcomeBumps x.1 (decided x.2)) := by
  rcases x with ⟨g, e | o⟩
  · refine ⟨haligned, ?_⟩
    change (List.flatMap excludedBumps (st.excluded ++ [g]) ++ _).Perm _
    rw [List.flatMap_append, List.flatMap_singleton, List.append_assoc, Played.bumps,
      List.append_assoc]
    exact List.perm_append_comm.append_left _
  · refine ⟨?_, ?_⟩
    · change (st.played ++ [g]).length = (st.winners ++ [_]).length
      rw [List.length_append, List.length_append, haligned]
      rfl
    · change (st.excluded.flatMap excludedBumps ++ ((st.played ++ [g]).zip
        (st.winners ++ [(o.winner, o.positionBias)])).flatMap fun x => gameBumps x.1 x.2).Perm _
      rw [List.zip_append haligned, List.flatMap_append, ← List.append_assoc]
      change (st.bumps ++ (gameBumps g (o.winner, o.positionBias) ++ [])).Perm _
      rw [List.append_nil]
      exact List.Perm.refl _

/-- **The fold counts every outcome once**, wherever its game ends up. -/
theorem bumps_foldl {st : Played nT nC} (haligned : st.played.length = st.winners.length)
    (xs : List (Game nT nC × Except EngineError PairwiseOutcome)) :
    (xs.foldl foldGame st).bumps.Perm
      (st.bumps ++ xs.flatMap fun x => outcomeBumps x.1 (decided x.2)) := by
  induction xs generalizing st with
  | nil => rw [List.flatMap_nil, List.append_nil]; exact List.Perm.refl _
  | cons x xs ih =>
    obtain ⟨haligned', hbumps⟩ := foldGame_spec haligned x
    rw [List.foldl_cons, List.flatMap_cons, ← List.append_assoc]
    exact (ih haligned').trans (hbumps.append_right _)

section Matrix

variable {env : PairwiseEnv} {generate : String → Except EngineError GenOutcome}
  {criteria : Option String} {cases : Fin nC → PairCase}
  {output : Fin nT → Fin nC → Option String}

/-- What a scheduled game counts. -/
def bumpsOf (env : PairwiseEnv) (generate : String → Except EngineError GenOutcome)
    (criteria : Option String) (cases : Fin nC → PairCase)
    (output : Fin nT → Fin nC → Option String) (g : Game nT nC) : List (Counter nT) :=
  outcomeBumps g (resultOf env generate criteria cases output g.ci g.i g.j)

theorem resultOf_of_playable {g : Game nT nC} (h : playable output g = true) :
    resultOf env generate criteria cases output g.ci g.i g.j =
      decided (judgeGame env generate criteria cases g.ci ((output g.i g.ci).getD "")
        ((output g.j g.ci).getD "")) := by
  unfold resultOf
  obtain ⟨hi, hj⟩ := (Bool.and_eq_true _ _).mp h
  rcases Option.isSome_iff_exists.1 hi with ⟨a, ha⟩
  rcases Option.isSome_iff_exists.1 hj with ⟨b, hb⟩
  rw [ha, hb]
  rfl

theorem resultOf_of_unplayable {g : Game nT nC} (h : (!playable output g) = true) :
    resultOf env generate criteria cases output g.ci g.i g.j = none := by
  unfold resultOf
  unfold playable at h
  cases hi : output g.i g.ci with
  | none => rfl
  | some a =>
    cases hj : output g.j g.ci with
    | none => rfl
    | some b =>
      rw [hi, hj] at h
      exact absurd h Bool.false_ne_true

/-- The counters of a ranking, before they wrap. -/
def countOf (env : PairwiseEnv) (generate : String → Except EngineError GenOutcome)
    (criteria : Option String) (cases : Fin nC → PairCase)
    (output : Fin nT → Fin nC → Option String) (c : Counter nT) : ℕ :=
  ((scheduled nT nC).flatMap (bumpsOf env generate criteria cases output)).count c

/-- **A ranking counts each scheduled game by its result.** -/
theorem runPairwiseMatrix_eq {checks : Bool}
    (h : checks = true → ∀ c, countOf env generate criteria cases output c < 2 ^ 32) :
    runPairwiseMatrix env generate criteria cases checks output =
      .ok (tallyOf fun c => UInt32.ofNat (countOf env generate criteria cases output c)) := by
  let games := (scheduled nT nC).filter (playable output)
  let unplayed := (scheduled nT nC).filter fun g => !playable output g
  let judge := fun g : Game nT nC => judgeGame env generate criteria cases g.ci
    ((output g.i g.ci).getD "") ((output g.j g.ci).getD "")
  let st := (games.zip (games.map judge)).foldl foldGame ⟨[], [], unplayed⟩
  have hgames : (games.zip (games.map judge)).flatMap (fun x => outcomeBumps x.1 (decided x.2)) =
      games.flatMap (bumpsOf env generate criteria cases output) := by
    have hzip := List.zip_map' (l := games) (f := id) (g := judge)
    rw [List.map_id] at hzip
    rw [hzip, List.flatMap_map]
    refine List.flatMap_congr fun g hg => ?_
    exact congrArg (outcomeBumps g) (resultOf_of_playable (List.mem_filter.1 hg).2).symm
  have hunplayed : unplayed.flatMap excludedBumps =
      unplayed.flatMap (bumpsOf env generate criteria cases output) := by
    refine List.flatMap_congr fun g hg => ?_
    unfold bumpsOf
    rw [resultOf_of_unplayable (List.mem_filter.1 hg).2]
    rfl
  -- played and unplayed games together are the schedule, in another order
  have hbumps : st.bumps.Perm
      ((scheduled nT nC).flatMap (bumpsOf env generate criteria cases output)) := by
    refine (bumps_foldl rfl _).trans ?_
    rw [hgames]
    change (unplayed.flatMap excludedBumps ++ [] ++ _).Perm _
    rw [List.append_nil, hunplayed, ← List.flatMap_append]
    exact (List.perm_append_comm.trans (List.filter_append_perm _ _)).flatMap_right _
  -- a counter does not see the order
  have hcount : ∀ c, st.bumps.count c = countOf env generate criteria cases output c :=
    fun c => hbumps.count_eq c
  have hrun : runPairwiseMatrix env generate criteria cases checks output =
      (bumpAll checks st.bumps fun _ => 0) >>= fun counts => pure (tallyOf counts) := rfl
  rw [hrun, bumpAll_eq]
  · refine congrArg Except.ok (congrArg tallyOf (funext fun c => ?_))
    rw [UInt32.zero_add, hcount]
  · intro hc c
    rw [hcount]
    change 0 + _ < _
    rw [Nat.zero_add]
    exact h hc c

end Matrix

/-! ## A target's own games -/

theorem sum_scheduled (f : Game nT nC → ℕ) :
    ((scheduled nT nC).map f).sum =
      ∑ ci, ((RoundRobin.pairs nT).map fun p => f ⟨ci, p.1, p.2⟩).sum := by
  unfold scheduled
  rw [RoundRobin.sum_flatMap, RoundRobin.sum_finRange]
  refine Finset.sum_congr rfl fun ci _ => ?_
  rw [RoundRobin.sum_flatMap, RoundRobin.pairs, RoundRobin.sum_flatMap]
  simp only [List.map_map]
  rfl

theorem length_scheduled (nT nC : ℕ) : (scheduled nT nC).length = roundRobinGames nT nC := by
  have hsum := sum_scheduled fun _ : Game nT nC => 1
  rw [List.map_const', List.sum_replicate, smul_eq_mul, mul_one] at hsum
  simp only [List.map_const', List.sum_replicate, smul_eq_mul, mul_one, Finset.sum_const,
    Finset.card_univ, Fintype.card_fin] at hsum
  have hpairs := RoundRobin.length_pairs nT
  unfold roundRobinGames
  rw [hsum, mul_assoc, ← hpairs, Nat.mul_left_comm, Nat.mul_div_cancel_left _ (by decide)]

section Matrix

variable {env : PairwiseEnv} {generate : String → Except EngineError GenOutcome}
  {criteria : Option String} {cases : Fin nC → PairCase}
  {output : Fin nT → Fin nC → Option String}

/-- **Swapping the answers of a game mirrors its result**, whatever the judge makes of a prompt. -/
theorem judgeGame_swap (ci : Fin nC) (a b : String) :
    decided (judgeGame env generate criteria cases ci b a) =
      (decided (judgeGame env generate criteria cases ci a b)).map mirror := by
  unfold judgeGame runPairwise
  exact pairwiseVia_swap rfl

/-- **The other side of a game sees the mirrored result.** -/
theorem resultOf_symm (ci : Fin nC) (x y : Fin nT) :
    resultOf env generate criteria cases output ci y x =
      (resultOf env generate criteria cases output ci x y).map mirror := by
  unfold resultOf
  cases output x ci with
  | none => cases output y ci <;> rfl
  | some a =>
    cases output y ci with
    | none => rfl
    | some b => exact judgeGame_swap ci a b

/-- **A target's counter is the sum of what it sees of its own games.** -/
theorem countOf_seen {c : Counter nT} {x : Fin nT}
    {view : Fin nT → Option (PairwiseWinner × Bool) → ℕ} (h : SeenBy nC c x view) :
    countOf env generate criteria cases output c = ∑ ci, ∑ y, if y ≠ x then
      view y (resultOf env generate criteria cases output ci x y) else 0 := by
  unfold countOf
  rw [List.count_flatMap, sum_scheduled]
  refine Finset.sum_congr rfl fun ci _ => ?_
  rw [← RoundRobin.sum_pairs_at]
  refine congrArg List.sum (List.map_congr_left fun p _ => ?_)
  change (outcomeBumps _ _).count c = _
  rw [h]
  congr 1
  · by_cases hp : p.1 = x
    · rw [if_pos hp, if_pos hp, ← hp]
    · rw [if_neg hp, if_neg hp]
  · by_cases hp : p.2 = x
    · rw [if_pos hp, if_pos hp, ← hp, ← resultOf_symm]
    · rw [if_neg hp, if_neg hp]

theorem countOf_bias_le :
    countOf env generate criteria cases output .bias ≤ roundRobinGames nT nC := by
  unfold countOf
  rw [List.count_flatMap, ← length_scheduled]
  refine (List.sum_le_card_nsmul _ 1 ?_).trans_eq ?_
  · intro n hn
    rcases List.mem_map.1 hn with ⟨g, -, rfl⟩
    exact count_bias_le g _
  · rw [List.length_map, smul_eq_mul, mul_one]

/-- What a target sees one of in each game adds up to no more than its games. -/
theorem countOf_seen_le {c : Counter nT} {x : Fin nT}
    {view : Fin nT → Option (PairwiseWinner × Bool) → ℕ} (h : SeenBy nC c x view)
    (hview : ∀ y r, view y r ≤ 1) :
    countOf env generate criteria cases output c ≤ (nT - 1) * nC := by
  rw [countOf_seen h]
  calc _ ≤ ∑ _ci : Fin nC, ∑ y, if y ≠ x then 1 else 0 := by
        refine Finset.sum_le_sum fun ci _ => Finset.sum_le_sum fun y _ => ?_
        split_ifs
        · exact hview _ _
        · exact le_rfl
    _ = (nT - 1) * nC := by
        rw [RoundRobin.sum_others, Finset.sum_const, Finset.card_univ, Fintype.card_fin,
          smul_eq_mul, mul_comm]

/-- No counter of a target exceeds its games. -/
theorem countOf_le (c : Counter nT) (hc : c ≠ .bias) :
    countOf env generate criteria cases output c ≤ (nT - 1) * nC := by
  have hone : ∀ r, won r ≤ 1 ∧ lost r ≤ 1 ∧ tied r ≤ 1 ∧ missing r ≤ 1 := by
    intro r
    have hsum := sum_views r
    omega
  cases c with
  | wins x => exact countOf_seen_le (seenBy_wins x) fun _ r => (hone r).1
  | losses x => exact countOf_seen_le (seenBy_losses x) fun _ r => (hone r).2.1
  | ties x => exact countOf_seen_le (seenBy_ties x) fun _ r => (hone r).2.2.1
  | positionalTies x => exact countOf_seen_le (seenBy_positionalTies x) fun _ => flipped_le
  | excluded x => exact countOf_seen_le (seenBy_excluded x) fun _ r => (hone r).2.2.2
  | beats x y =>
    refine countOf_seen_le (seenBy_beats x y) fun z r => ?_
    split_ifs
    · exact (hone r).1
    · exact Nat.zero_le 1
  | bias => exact absurd rfl hc

/-- The counters of a tally did not wrap. -/
structure Counts (t : Tally nT) (n : Counter nT → ℕ) : Prop where
  wins : ∀ x, (t.standings x).wins.toNat = n (.wins x)
  losses : ∀ x, (t.standings x).losses.toNat = n (.losses x)
  ties : ∀ x, (t.standings x).ties.toNat = n (.ties x)
  positionalTies : ∀ x, (t.standings x).positionalTies.toNat = n (.positionalTies x)
  excluded : ∀ x, (t.standings x).excluded.toNat = n (.excluded x)
  beats : ∀ x y, (t.beats x y).toNat = n (.beats x y)

/-- **The counters of a ranking do not wrap** where its games fit them. -/
theorem runPairwiseMatrix_of_fits {checks : Bool} (hfits : (nT - 1) * nC < 2 ^ 32)
    (hgames : checks = true → roundRobinGames nT nC < 2 ^ 32) :
    ∃ t, runPairwiseMatrix env generate criteria cases checks output = .ok t ∧
      Counts t (countOf env generate criteria cases output) := by
  have hcount : ∀ c, c ≠ .bias →
      (UInt32.ofNat (countOf env generate criteria cases output c)).toNat =
        countOf env generate criteria cases output c :=
    fun c hbias => UInt32.toNat_ofNat_of_lt' ((countOf_le c hbias).trans_lt hfits)
  refine ⟨_, runPairwiseMatrix_eq ?_, ?_⟩
  · intro hc c
    by_cases hbias : c = .bias
    · rw [hbias]
      exact countOf_bias_le.trans_lt (hgames hc)
    · exact (countOf_le c hbias).trans_lt hfits
  · exact ⟨fun x => hcount _ nofun, fun x => hcount _ nofun, fun x => hcount _ nofun,
      fun x => hcount _ nofun, fun x => hcount _ nofun, fun x y => hcount _ nofun⟩

/-! ## Laws -/

/-- A flipped game is a tie of both sides. -/
theorem flipped_le_tied (ci : Fin nC) (x y : Fin nT) :
    flipped (resultOf env generate criteria cases output ci x y) ≤
      tied (resultOf env generate criteria cases output ci x y) := by
  cases hr : resultOf env generate criteria cases output ci x y with
  | none => exact Nat.zero_le _
  | some r =>
    by_cases hbias : r.2 = true
    · have htie : r.1 = .tie := by
        unfold resultOf at hr
        rcases Option.bind_eq_some_iff.1 hr with ⟨a, -, hr⟩
        rcases Option.bind_eq_some_iff.1 hr with ⟨b, -, hr⟩
        unfold judgeGame runPairwise at hr
        exact decided_biased hr hbias
      refine (flipped_le _).trans_eq ?_
      unfold tied
      rw [Option.map_some, htie, if_pos rfl]
    · have hflipped : flipped (some r) = 0 := if_neg fun h => hbias (Option.some.inj h)
      rw [hflipped]
      exact Nat.zero_le _

/-- **Each of a target's games is counted once.** -/
theorem countOf_complete (x : Fin nT) :
    countOf env generate criteria cases output (.wins x) +
      countOf env generate criteria cases output (.losses x) +
      countOf env generate criteria cases output (.ties x) +
      countOf env generate criteria cases output (.excluded x) = (nT - 1) * nC := by
  rw [countOf_seen (seenBy_wins x), countOf_seen (seenBy_losses x), countOf_seen (seenBy_ties x),
    countOf_seen (seenBy_excluded x), ← Finset.sum_add_distrib, ← Finset.sum_add_distrib,
    ← Finset.sum_add_distrib]
  calc _ = ∑ _ci : Fin nC, ∑ y, if y ≠ x then 1 else 0 := by
        refine Finset.sum_congr rfl fun ci _ => ?_
        rw [← Finset.sum_add_distrib, ← Finset.sum_add_distrib, ← Finset.sum_add_distrib]
        refine Finset.sum_congr rfl fun y _ => ?_
        split_ifs
        · exact sum_views _
        · rfl
    _ = (nT - 1) * nC := by
        rw [RoundRobin.sum_others, Finset.sum_const, Finset.card_univ, Fintype.card_fin,
          smul_eq_mul, mul_comm]

theorem countOf_positionalTies_le (x : Fin nT) :
    countOf env generate criteria cases output (.positionalTies x) ≤
      countOf env generate criteria cases output (.ties x) := by
  rw [countOf_seen (seenBy_positionalTies x), countOf_seen (seenBy_ties x)]
  refine Finset.sum_le_sum fun ci _ => Finset.sum_le_sum fun y _ => ?_
  split_ifs
  · exact flipped_le_tied ci x y
  · exact le_rfl

/-- The wins against one opponent. -/
theorem countOf_beats (x y : Fin nT) :
    countOf env generate criteria cases output (.beats x y) = ∑ ci, if y ≠ x then
      won (resultOf env generate criteria cases output ci x y) else 0 := by
  rw [countOf_seen (seenBy_beats x y)]
  refine Finset.sum_congr rfl fun ci _ => ?_
  rw [Finset.sum_eq_single y]
  · rw [if_pos rfl]
  · intro z _ hz
    rw [if_neg hz, ite_self]
  · intro hy
    exact absurd (Finset.mem_univ y) hy

theorem sum_beats_row (x : Fin nT) :
    ∑ y, countOf env generate criteria cases output (.beats x y) =
      countOf env generate criteria cases output (.wins x) := by
  simp only [countOf_beats]
  rw [Finset.sum_comm, countOf_seen (seenBy_wins x)]

/-- What one side wins the other loses. -/
theorem sum_beats_column (y : Fin nT) :
    ∑ x, countOf env generate criteria cases output (.beats x y) =
      countOf env generate criteria cases output (.losses y) := by
  simp only [countOf_beats]
  rw [Finset.sum_comm, countOf_seen (seenBy_losses y)]
  refine Finset.sum_congr rfl fun ci _ => Finset.sum_congr rfl fun x _ => ?_
  rw [resultOf_symm ci y x]
  simp only [ne_comm]
  congr 1
  rcases resultOf env generate criteria cases output ci y x with _ | ⟨_ | _ | _, _⟩ <;> rfl

theorem winRate_of_fits {checks : Bool} {s : Standing}
    (h : s.wins.toNat + s.losses.toNat + s.ties.toNat < 2 ^ 32) :
    ∃ r, s.winRate checks = .ok r ∧ 0 ≤ r ∧ r ≤ 1 := by
  have hwl : s.wins.toNat + s.losses.toNat < 2 ^ 32 := by omega
  have hsum : (s.wins + s.losses).toNat = s.wins.toNat + s.losses.toNat := by
    rw [UInt32.toNat_add, Nat.mod_eq_of_lt hwl]
  have hgames : s.games checks = .ok (s.wins + s.losses + s.ties) := by
    unfold Standing.games
    rw [addU32_of_fits fun _ => hwl]
    refine addU32_of_fits fun _ => ?_
    rwa [hsum]
  have htotal : (s.wins + s.losses + s.ties).toNat =
      s.wins.toNat + s.losses.toNat + s.ties.toNat := by
    rw [UInt32.toNat_add, hsum, Nat.mod_eq_of_lt h]
  unfold Standing.winRate
  rw [hgames]
  refine ⟨_, rfl, ?_⟩
  by_cases hzero : s.wins + s.losses + s.ties = 0
  · rw [if_pos hzero]
    norm_num
  · rw [if_neg hzero]
    have hpos : (0 : ℚ) < ((s.wins + s.losses + s.ties).toNat : ℚ) := by
      refine Nat.cast_pos.2 (Nat.pos_of_ne_zero fun h0 => hzero ?_)
      exact UInt32.toNat_inj.1 h0
    constructor
    · positivity
    · rw [div_le_one hpos, htotal]
      push_cast
      have hl : (0 : ℚ) ≤ s.losses.toNat := Nat.cast_nonneg _
      have ht : (0 : ℚ) ≤ s.ties.toNat := Nat.cast_nonneg _
      linarith

/-- **The counters of a ranking add up**, where its games fit them. -/
theorem lawful_of_counts {checks : Bool} (hfits : (nT - 1) * nC < 2 ^ 32) {t : Tally nT}
    (ht : Counts t (countOf env generate criteria cases output)) : LawfulTally checks nC t := by
  have hcomplete : ∀ x, (t.standings x).wins.toNat + (t.standings x).losses.toNat +
      (t.standings x).ties.toNat + (t.standings x).excluded.toNat = (nT - 1) * nC := by
    intro x
    rw [ht.wins, ht.losses, ht.ties, ht.excluded]
    exact countOf_complete x
  refine ⟨hcomplete, ?_, ?_, ?_, ?_, ?_⟩
  · intro x
    rw [ht.positionalTies, ht.ties]
    exact countOf_positionalTies_le x
  · intro x
    rw [ht.wins, ← sum_beats_row]
    exact Finset.sum_congr rfl fun y _ => ht.beats x y
  · intro y
    rw [ht.losses, ← sum_beats_column]
    exact Finset.sum_congr rfl fun x _ => ht.beats x y
  · calc ∑ x, (t.standings x).wins.toNat
        = ∑ x, ∑ y, countOf env generate criteria cases output (.beats x y) :=
          Finset.sum_congr rfl fun x _ => by rw [ht.wins, sum_beats_row]
      _ = ∑ y, ∑ x, countOf env generate criteria cases output (.beats x y) := Finset.sum_comm
      _ = ∑ y, (t.standings y).losses.toNat :=
          Finset.sum_congr rfl fun y _ => by rw [ht.losses, sum_beats_column]
  · intro x
    refine winRate_of_fits ?_
    have htotal := hcomplete x
    omega

/-! ## The order of the targets -/

/-- The counter of the target that another order calls by this name. -/
def Counter.rename (σ : Fin nT → Fin nT) : Counter nT → Counter nT
  | .wins i => .wins (σ i)
  | .losses i => .losses (σ i)
  | .ties i => .ties (σ i)
  | .positionalTies i => .positionalTies (σ i)
  | .excluded i => .excluded (σ i)
  | .beats i j => .beats (σ i) (σ j)
  | .bias => .bias

/-- **What a target sees does not depend on its place in the list.** -/
theorem countOf_perm (σ : Equiv.Perm (Fin nT)) {c c' : Counter nT} {x : Fin nT}
    {view view' : Fin nT → Option (PairwiseWinner × Bool) → ℕ} (h : SeenBy nC c x view)
    (h' : SeenBy nC c' (σ x) view') (hview : ∀ y r, view y r = view' (σ y) r) :
    countOf env generate criteria cases (fun i => output (σ i)) c =
      countOf env generate criteria cases output c' := by
  rw [countOf_seen h, countOf_seen h']
  refine Finset.sum_congr rfl fun ci _ => ?_
  refine (Finset.sum_congr rfl fun y _ => ?_).trans (Equiv.sum_comp σ fun y => if y ≠ σ x then
    view' y (resultOf env generate criteria cases output ci (σ x) y) else 0)
  rw [hview]
  simp only [ne_eq, σ.injective.eq_iff]
  rfl

theorem countOf_rename (σ : Equiv.Perm (Fin nT)) {c : Counter nT} (hc : c ≠ .bias) :
    countOf env generate criteria cases (fun i => output (σ i)) c =
      countOf env generate criteria cases output (c.rename σ) := by
  cases c with
  | wins x => exact countOf_perm σ (seenBy_wins x) (seenBy_wins (σ x)) fun _ _ => rfl
  | losses x => exact countOf_perm σ (seenBy_losses x) (seenBy_losses (σ x)) fun _ _ => rfl
  | ties x => exact countOf_perm σ (seenBy_ties x) (seenBy_ties (σ x)) fun _ _ => rfl
  | positionalTies x =>
    exact countOf_perm σ (seenBy_positionalTies x) (seenBy_positionalTies (σ x)) fun _ _ => rfl
  | excluded x => exact countOf_perm σ (seenBy_excluded x) (seenBy_excluded (σ x)) fun _ _ => rfl
  | beats x y =>
    refine countOf_perm σ (seenBy_beats x y) (seenBy_beats (σ x) (σ y)) fun z r => ?_
    simp only [σ.injective.eq_iff]
  | bias => exact absurd rfl hc

/-- **A ranking of the targets in another order** is the same ranking. -/
theorem permuted_of_counts (σ : Equiv.Perm (Fin nT)) {t t' : Tally nT}
    (ht : Counts t (countOf env generate criteria cases output))
    (ht' : Counts t' (countOf env generate criteria cases fun i => output (σ i))) :
    (∀ x, t'.standings x = t.standings (σ x)) ∧ ∀ x y, t'.beats x y = t.beats (σ x) (σ y) := by
  refine ⟨fun x => ?_, fun x y => ?_⟩
  · refine Standing.ext (UInt32.toNat_inj.1 ?_) (UInt32.toNat_inj.1 ?_) (UInt32.toNat_inj.1 ?_)
      (UInt32.toNat_inj.1 ?_) (UInt32.toNat_inj.1 ?_)
    · rw [ht.wins, ht'.wins]
      exact countOf_rename σ (by nofun)
    · rw [ht.losses, ht'.losses]
      exact countOf_rename σ (by nofun)
    · rw [ht.ties, ht'.ties]
      exact countOf_rename σ (by nofun)
    · rw [ht.positionalTies, ht'.positionalTies]
      exact countOf_rename σ (by nofun)
    · rw [ht.excluded, ht'.excluded]
      exact countOf_rename σ (by nofun)
  · refine UInt32.toNat_inj.1 ?_
    rw [ht.beats, ht'.beats]
    exact countOf_rename σ (by nofun)

/-- A judge of positions wins nobody a game. -/
theorem countOf_positional
    (hjudge : ∀ ci a b r, decided (judgeGame env generate criteria cases ci a b) = some r →
      r.1 = .tie) (x : Fin nT) :
    countOf env generate criteria cases output (.wins x) = 0 ∧
      countOf env generate criteria cases output (.losses x) = 0 := by
  have htie : ∀ ci y r, resultOf env generate criteria cases output ci x y = some r →
      r.1 = .tie := by
    intro ci y r hr
    unfold resultOf at hr
    rcases Option.bind_eq_some_iff.1 hr with ⟨a, -, hr⟩
    rcases Option.bind_eq_some_iff.1 hr with ⟨b, -, hr⟩
    exact hjudge ci a b r hr
  have hnot : ∀ ci y (w : PairwiseWinner), w ≠ .tie →
      (resultOf env generate criteria cases output ci x y).map Prod.fst ≠ some w := by
    intro ci y w hw hmap
    rcases Option.map_eq_some_iff.1 hmap with ⟨r, hr, rfl⟩
    exact hw (htie ci y r hr)
  rw [countOf_seen (seenBy_wins x), countOf_seen (seenBy_losses x)]
  constructor
  · refine Finset.sum_eq_zero fun ci _ => Finset.sum_eq_zero fun y _ => ?_
    split_ifs
    · exact if_neg (hnot ci y .a nofun)
    · rfl
  · refine Finset.sum_eq_zero fun ci _ => Finset.sum_eq_zero fun y _ => ?_
    split_ifs
    · exact if_neg (hnot ci y .b nofun)
    · rfl

end Matrix

end Tally

/-! ## Examples of rankings -/

/-- Pairwise judging that shows the two answers side by side. -/
def sideBySide : PairwiseEnv where
  reader := { fromStr := fun _ => some .null, f64Of := fun _ => 0 }
  buildPairwisePrompt _ _ answerA answerB _ := { text := answerA ++ "/" ++ answerB }
  buildRepairPrompt _ _ := { text := "repair" }
  verdictOf json := .ok { winner := if json = "\x7bA\x7d" then .a else .b }

/-- A judge that prefers yes to no, and fails otherwise. -/
def prefersYes (prompt : String) : Except EngineError GenOutcome :=
  if prompt = "yes/no" then .ok { output := "\x7bA\x7d" }
  else if prompt = "no/yes" then .ok { output := "\x7bB\x7d" }
  else .error (.parse prompt)

/-- A target that answers no, one that answers yes, and one that fails. -/
def threeAnswers (i : Fin 3) (_ : Fin 1) : Option String := [some "no", some "yes", none][i]

end LightTrack.Runner
