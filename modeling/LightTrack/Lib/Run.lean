import Mathlib.Data.List.Chain
import Mathlib.Order.Defs.PartialOrder
import Mathlib.Tactic.Basic

/-! # Runs of a labelled step relation

A step relation `Step s l s'` together with its finite runs.  The rules here are
the only inductions over runs that the rest of the development uses:

* `Run.invariant` : what one step preserves, a whole run preserves,
* `Run.trace_invariant` : the same, for what also speaks of the labels executed so far,
* `Run.simulate` : what matches one step for step matches a run,
* `Restrict` : the runs all of whose steps meet a condition on the state before
  the step and its label,
* `Enabled` : the labels that a program executes, for a step relation that is a function, and
  `enabled_iff_prefixes` : what holds after every prefix of them,
* `Run.of_foldlM` : the same where a step is a partial function,
* `Ticks` : the step relation of a program that reads a clock which never goes
  backwards, and `Run.foldl` : its run over a list of labels,
* `answers` : what a program answers to a list of calls, and `answers_agree_iff` : two programs
  agree on every prefix of a list exactly when every call is one on which they agree.
-/

namespace Sys

variable {σ : Type*} {ι : Type*} {τ : Type*}

/-- Finite runs of `Step`, with the labels in the order they were executed. -/
inductive Run (Step : σ → ι → σ → Prop) (s : σ) : List ι → σ → Prop
  | nil : Run Step s [] s
  | snoc {ls : List ι} {l : ι} {s' s'' : σ} :
      Run Step s ls s' → Step s' l s'' → Run Step s (ls ++ [l]) s''

namespace Run

variable {Step : σ → ι → σ → Prop} {s s' s'' : σ} {ls ls' : List ι}

/-- Invariant induction: `I` holds at the start and every step keeps it. -/
theorem invariant {I : σ → Prop} (hrun : Run Step s ls s') (hinit : I s)
    (hstep : ∀ a l b, Step a l b → I a → I b) : I s' := by
  induction hrun with
  | nil => exact hinit
  | snoc _ hs ih => exact hstep _ _ _ hs ih

/-- Invariant induction with the labels seen so far: `I` holds of no label at the start, and every
step keeps it with its own label added. -/
theorem trace_invariant {I : List ι → σ → Prop} (hrun : Run Step s ls s') (hinit : I [] s)
    (hstep : ∀ ls a l b, Step a l b → I ls a → I (ls ++ [l]) b) : I ls s' := by
  induction hrun with
  | nil => exact hinit
  | snoc _ hs ih => exact hstep _ _ _ _ hs ih

/-- A run of a stronger step relation is a run of a weaker one. -/
theorem mono {Step' : σ → ι → σ → Prop} (hrun : Run Step s ls s')
    (hle : ∀ a l b, Step a l b → Step' a l b) : Run Step' s ls s' := by
  induction hrun with
  | nil => exact .nil
  | snoc _ hs ih => exact .snoc ih (hle _ _ _ hs)

/-- Simulation: related states, and every step matched under the same label by related states. -/
theorem simulate {σ' : Type*} {Step' : σ' → ι → σ' → Prop} {R : σ → σ' → Prop} {t : σ'}
    (hrun : Run Step s ls s') (hinit : R s t)
    (hstep : ∀ a l b, Step a l b → ∀ a', R a a' → ∃ b', Step' a' l b' ∧ R b b') :
    ∃ t', Run Step' t ls t' ∧ R s' t' := by
  induction hrun with
  | nil => exact ⟨t, .nil, hinit⟩
  | snoc _ hs ih =>
    obtain ⟨t', hrun', hrel⟩ := ih
    obtain ⟨t'', hs', hrel'⟩ := hstep _ _ _ hs t' hrel
    exact ⟨t'', .snoc hrun' hs', hrel'⟩

/-- Two runs that meet in a state compose. -/
theorem append (hrun : Run Step s ls s') (hrun' : Run Step s' ls' s'') :
    Run Step s (ls ++ ls') s'' := by
  induction hrun' with
  | nil => simpa using hrun
  | snoc _ hs ih => simpa [List.append_assoc] using Run.snoc ih hs

/-- A single step is a run. -/
theorem single {l : ι} (hs : Step s l s') : Run Step s [l] s' :=
  .snoc .nil hs

end Run

/-! ## Runs under a condition -/

/-- The steps of `Step` whose label and state before the step meet `C`. -/
def Restrict (Step : σ → ι → σ → Prop) (C : σ → ι → Prop) (s : σ) (l : ι) (s' : σ) : Prop :=
  Step s l s' ∧ C s l

theorem Run.of_restrict {Step : σ → ι → σ → Prop} {C : σ → ι → Prop} {s s' : σ} {ls : List ι}
    (hrun : Run (Restrict Step C) s ls s') : Run Step s ls s' :=
  hrun.mono (fun _ _ _ h => h.1)

/-- A run whose labels all meet the condition, whatever the state. -/
theorem Run.restrict {Step : σ → ι → σ → Prop} {C : σ → ι → Prop} {s s' : σ} {ls : List ι}
    (hrun : Run Step s ls s') (hC : ∀ l ∈ ls, ∀ a, C a l) : Run (Restrict Step C) s ls s' := by
  induction hrun with
  | nil => exact .nil
  | snoc _ hs ih =>
    refine .snoc (ih fun l hl => hC l (List.mem_append_left _ hl)) ⟨hs, hC _ ?_ _⟩
    exact List.mem_append_right _ List.mem_cons_self

/-! ## Runs that can be executed -/

/-- Every label is ready in the state that executing the labels before it leads to. -/
def Enabled (exec : σ → ι → σ) (ready : σ → ι → Prop) : σ → List ι → Prop
  | _, [] => True
  | s, l :: ls => ready s l ∧ Enabled exec ready (exec s l) ls

instance Enabled.decidable {exec : σ → ι → σ} {ready : σ → ι → Prop}
    [∀ s l, Decidable (ready s l)] : ∀ (ls : List ι) (s : σ), Decidable (Enabled exec ready s ls)
  | [], _ => isTrue trivial
  | l :: ls, s =>
    have : Decidable (Enabled exec ready (exec s l) ls) := Enabled.decidable ls (exec s l)
    inferInstanceAs (Decidable (ready s l ∧ Enabled exec ready (exec s l) ls))

theorem enabled_and_iff {exec : σ → ι → σ} {ready ready' : σ → ι → Prop} (ls : List ι) (s : σ) :
    Enabled exec (fun s l => ready s l ∧ ready' s l) s ls ↔
      Enabled exec ready s ls ∧ Enabled exec ready' s ls := by
  induction ls generalizing s with
  | nil => exact ⟨fun _ => ⟨trivial, trivial⟩, fun _ => trivial⟩
  | cons l ls ih =>
    unfold Enabled
    rw [ih]
    exact and_and_and_comm

/-- What one step keeps exactly when its label is ready holds after every prefix of the labels
exactly when they are enabled: `I` is what every step keeps. -/
theorem enabled_iff_prefixes {exec : σ → ι → σ} {ready : σ → ι → Prop} {I P : σ → Prop}
    (hinv : ∀ s l, I s → I (exec s l)) (hstep : ∀ s l, I s → P s → (P (exec s l) ↔ ready s l))
    (ls : List ι) (s : σ) (hI : I s) (hP : P s) :
    (∀ pre, pre <+: ls → P (pre.foldl exec s)) ↔ Enabled exec ready s ls := by
  induction ls generalizing s with
  | nil =>
    refine ⟨fun _ => trivial, ?_⟩
    intro _ pre hpre
    rw [List.prefix_nil.1 hpre]
    exact hP
  | cons l ls ih =>
    unfold Enabled
    constructor
    · intro h
      have hone : P (exec s l) := h [l] ⟨ls, rfl⟩
      refine ⟨(hstep s l hI hP).1 hone, (ih _ (hinv s l hI) hone).1 ?_⟩
      intro pre hpre
      exact h (l :: pre) (List.cons_prefix_cons.2 ⟨rfl, hpre⟩)
    · rintro ⟨hready, hrest⟩ pre hpre
      have hone : P (exec s l) := (hstep s l hI hP).2 hready
      cases pre with
      | nil => exact hP
      | cons l' pre =>
        rcases List.cons_prefix_cons.1 hpre with ⟨rfl, hshort⟩
        exact (ih _ (hinv s l' hI) hone).2 hrest pre hshort

/-- Where the step relation executes what is ready, executing enabled labels is a run. -/
theorem Run.of_enabled (Step : σ → ι → σ → Prop) (exec : σ → ι → σ) (ready : σ → ι → Prop)
    (hstep : ∀ s l, ready s l → Step s l (exec s l)) (s : σ) (ls : List ι)
    (h : Enabled exec ready s ls) : Run Step s ls (ls.foldl exec s) := by
  induction ls generalizing s with
  | nil => exact .nil
  | cons l ls ih =>
    rcases h with ⟨hready, hrest⟩
    exact (Run.single (hstep s l hready)).append (ih _ hrest)

/-- Where a step is a partial function, labels that can be executed one after the other are a run. -/
theorem Run.of_foldlM {step : σ → ι → Option σ} {s s' : σ} (ls : List ι)
    (h : ls.foldlM step s = some s') : Run (fun s l s' => step s l = some s') s ls s' := by
  induction ls generalizing s with
  | nil =>
    cases h
    exact .nil
  | cons l ls ih =>
    rw [List.foldlM_cons] at h
    obtain ⟨t, hstep, hrest⟩ := Option.bind_eq_some_iff.1 h
    have hone : Run (fun s l s' => step s l = some s') s [l] t := .single hstep
    exact hone.append (ih hrest)

/-! ## Programs that read a clock -/

/-- A program state paired with the last instant at which it took a step. -/
structure Timed (τ : Type*) (σ : Type*) where
  clock : τ
  state : σ

/-- One step that starts at an instant no earlier than the clock; `exec` says when it ends. -/
def Ticks [LE τ] (exec : τ → ι → σ → Timed τ σ) (s : Timed τ σ) (l : τ × ι) (s' : Timed τ σ) :
    Prop :=
  s.clock ≤ l.1 ∧ s' = exec l.1 l.2 s.state

/-- Labels at instants that do not decrease are executed one after the other. -/
theorem Run.foldl [LE τ] {exec : τ → ι → σ → Timed τ σ} (hexec : ∀ t l s, (exec t l s).clock = t)
    (ls : List (τ × ι)) (s : Timed τ σ) (hls : (s.clock :: ls.map Prod.fst).IsChain (· ≤ ·)) :
    Run (Ticks exec) s ls (ls.foldl (fun s l => exec l.1 l.2 s.state) s) := by
  induction ls generalizing s with
  | nil => exact .nil
  | cons l ls ih =>
    rcases List.isChain_cons_cons.1 hls with ⟨hle, hls⟩
    refine (Run.single (l := l) ⟨hle, rfl⟩).append (ih _ ?_)
    rw [hexec]
    exact hls

/-! ## Programs that answer -/

/-- The answers to a list of calls, and the state behind them. -/
def answers {ω : Type*} (exec : σ → ι → ω × σ) : σ → List ι → List ω × σ
  | s, [] => ([], s)
  | s, l :: ls =>
    ((exec s l).1 :: (answers exec (exec s l).2 ls).1, (answers exec (exec s l).2 ls).2)

/-- A program over other states gives the answers of `exec` and leads to the states of `exec`, after
every prefix of the calls, exactly when every call is ready in the state that it meets: provided
that an invariant of `exec` makes being ready the condition for one call. -/
theorem answers_agree_iff {σ' ω : Type*} (abs : σ' → σ) {exec : σ → ι → ω × σ}
    (exec' : σ' → ι → ω × σ') {ready : σ → ι → Prop} {I : σ → Prop}
    (hinv : ∀ s l, I s → I (exec s l).2)
    (hstep : ∀ s' l, I (abs s') →
      (Prod.map id abs (exec' s' l) = exec (abs s') l ↔ ready (abs s') l))
    (ls : List ι) (s' : σ') (hI : I (abs s')) :
    (∀ pre, pre <+: ls → Prod.map id abs (answers exec' s' pre) = answers exec (abs s') pre) ↔
      Enabled (fun s l => (exec s l).2) ready (abs s') ls := by
  induction ls generalizing s' with
  | nil =>
    refine ⟨fun _ => trivial, ?_⟩
    intro _ pre hpre
    rw [List.prefix_nil.1 hpre]
    rfl
  | cons l ls ih =>
    have hnext : Prod.map id abs (exec' s' l) = exec (abs s') l →
        abs (exec' s' l).2 = (exec (abs s') l).2 := fun h => congrArg Prod.snd h
    constructor
    · intro h
      -- the first call alone is a prefix
      have hone : Prod.map id abs (exec' s' l) = exec (abs s') l := by
        have hfirst := h [l] ⟨ls, rfl⟩
        have hanswer : [(exec' s' l).1] = [(exec (abs s') l).1] := congrArg Prod.fst hfirst
        have hstate : abs (exec' s' l).2 = (exec (abs s') l).2 := congrArg Prod.snd hfirst
        exact Prod.ext (List.cons.inj hanswer).1 hstate
      refine ⟨(hstep s' l hI).1 hone, ?_⟩
      have hrest := (ih (exec' s' l).2 (by rw [hnext hone]; exact hinv _ l hI)).1
      rw [hnext hone] at hrest
      apply hrest
      intro pre hpre
      have hlong := h (l :: pre) (List.cons_prefix_cons.2 ⟨rfl, hpre⟩)
      have hanswers := (List.cons.inj (congrArg Prod.fst hlong)).2
      have hstate := congrArg Prod.snd hlong
      exact Prod.ext hanswers hstate
    · rintro ⟨hready, hrest⟩ pre hpre
      have hone := (hstep s' l hI).2 hready
      cases pre with
      | nil => rfl
      | cons l' pre =>
        rcases List.cons_prefix_cons.1 hpre with ⟨rfl, hshort⟩
        have htail := (ih (exec' s' l').2 (by rw [hnext hone]; exact hinv _ l' hI)).2
        rw [hnext hone] at htail
        have hpre' := htail hrest pre hshort
        have hanswer : (exec' s' l').1 = (exec (abs s') l').1 := congrArg Prod.fst hone
        have hanswers := congrArg Prod.fst hpre'
        have hstate := congrArg Prod.snd hpre'
        refine Prod.ext ?_ hstate
        exact congrArg₂ List.cons hanswer hanswers

end Sys
