import Mathlib.Data.List.Basic
import Mathlib.Logic.Relation
import Mathlib.Tactic.Common

/-! # Climbing parent links

A partial function `next` sends a node to its parent.  `climb` follows it, a bounded number of
links, to the first node that is a goal, and gives up where it meets a node again.

* `climb_eq_some_iff` : the climb ends at the nearest goal; giving up loses none,
* `Nearest` : the first goals above a node in a relation,
* `Follows.climb_eq_some_iff` : where the function follows the relation on the way, the climb ends
  at the nearest goal of the relation.
-/

namespace Ascent

variable {α : Type*}

/-- The node `n` links up. -/
def up (next : α → Option α) : ℕ → α → Option α
  | 0, a => some a
  | n + 1, a => (next a).bind (up next n)

/-- Follow the links to the first goal, at most `n` of them. -/
def climb [DecidableEq α] (next : α → Option α) (goal : α → Bool) : ℕ → List α → α → Option α
  | 0, _, _ => none
  | n + 1, seen, a =>
    if a ∈ seen then none
    else
      match next a with
      | none => none
      | some b => if goal b then some b else climb next goal n (a :: seen) b

section Up

variable {next : α → Option α} {a b c : α}

theorem up_succ (n : ℕ) (a : α) : up next (n + 1) a = (next a).bind (up next n) := rfl

theorem up_succ_of_next (h : next a = some b) (n : ℕ) : up next (n + 1) a = up next n b := by
  rw [up_succ, h, Option.bind_some]

theorem up_add (m n : ℕ) : up next (m + n) a = (up next m a).bind (up next n) := by
  induction m generalizing a with
  | zero =>
    rw [Nat.zero_add]
    rfl
  | succ m ih =>
    rw [Nat.succ_add, up_succ, up_succ]
    cases next a with
    | none => rfl
    | some b => exact ih

/-- The last link of a way up. -/
theorem next_of_up_succ {n : ℕ} (h : up next (n + 1) a = some c) :
    ∃ b, up next n a = some b ∧ next b = some c := by
  rw [up_add, Option.bind_eq_some_iff] at h
  rcases h with ⟨b, hb, hc⟩
  refine ⟨b, hb, ?_⟩
  rw [up_succ] at hc
  cases hnext : next b with
  | none =>
    rw [hnext] at hc
    cases hc
  | some d =>
    rw [hnext] at hc
    exact hc

/-- No goal lies one to `n` links up. -/
def Clear (next : α → Option α) (goal : α → Bool) (n : ℕ) (a : α) : Prop :=
  ∀ j, j < n → ∀ c, up next (j + 1) a = some c → goal c = false

variable {goal : α → Bool}

/-- Above a node that is met again without a goal between there is no goal. -/
theorem clear_of_cycle {p : ℕ} (hcycle : up next (p + 1) a = some a)
    (hclear : Clear next goal (p + 1) a) (n : ℕ) : Clear next goal n a := by
  intro j hj
  clear hj
  induction j using Nat.strongRecOn with
  | ind j ih =>
    intro c hc
    by_cases hle : j < p + 1
    · exact hclear j hle c hc
    · -- the way up is the way from where the cycle closed
      have hsplit : j + 1 = (p + 1) + ((j - (p + 1)) + 1) := by omega
      rw [hsplit, up_add, hcycle] at hc
      exact ih (j - (p + 1)) (by omega) c hc

end Up

section Climb

variable {next : α → Option α} {goal : α → Bool} {a b : α}

theorem clear_succ_iff {n : ℕ} (h : next a = some b) :
    Clear next goal (n + 1) a ↔ goal b = false ∧ Clear next goal n b := by
  constructor
  · intro hclear
    refine ⟨hclear 0 (Nat.succ_pos n) b ?_, ?_⟩
    · rw [up_succ_of_next h]
      rfl
    · intro j hj c hc
      refine hclear (j + 1) (by omega) c ?_
      rw [up_succ_of_next h]
      exact hc
  · rintro ⟨hgoal, hclear⟩ j hj c hc
    rw [up_succ_of_next h] at hc
    cases j with
    | zero => exact Option.some.inj hc ▸ hgoal
    | succ j => exact hclear j (by omega) c hc

/-- What is below a node is below the next one, and the node itself is. -/
theorem seen_next {seen : List α}
    (hseen : ∀ s ∈ seen, ∃ p, up next (p + 1) s = some a ∧ Clear next goal (p + 1) s) {c : α}
    (hnext : next a = some c) (hfalse : goal c = false) :
    ∀ s ∈ a :: seen, ∃ p, up next (p + 1) s = some c ∧ Clear next goal (p + 1) s := by
  intro s hs
  rcases List.mem_cons.1 hs with rfl | hs
  · refine ⟨0, ?_, (clear_succ_iff hnext).2 ⟨hfalse, fun j hj => by omega⟩⟩
    rw [up_succ_of_next hnext]
    rfl
  · rcases hseen s hs with ⟨p, hup, hclear⟩
    have hlong : up next (p + 1 + 1) s = some c := by
      rw [up_add, hup]
      exact (up_succ_of_next hnext 0).trans rfl
    refine ⟨p + 1, hlong, ?_⟩
    intro j hj d hd
    by_cases hlt : j < p + 1
    · exact hclear j hlt d hd
    · have hj' : j = p + 1 := by omega
      subst hj'
      rw [hlong] at hd
      exact Option.some.inj hd ▸ hfalse

variable [DecidableEq α]

/-- A climb that remembers nodes below it, with no goal between, ends at the nearest goal. -/
theorem climb_spec (n : ℕ) (seen : List α)
    (hseen : ∀ s ∈ seen, ∃ p, up next (p + 1) s = some a ∧ Clear next goal (p + 1) s) (b : α) :
    climb next goal n seen a = some b ↔
      ∃ k, k < n ∧ up next (k + 1) a = some b ∧ goal b = true ∧ Clear next goal k a := by
  induction n generalizing a seen with
  | zero =>
    constructor
    · intro h
      cases h
    · rintro ⟨k, hk, -⟩
      omega
  | succ n ih =>
    unfold climb
    split_ifs with hmem
    · -- a node met again: nothing above it is a goal
      rcases hseen a hmem with ⟨p, hcycle, hclear⟩
      constructor
      · intro h
        cases h
      · rintro ⟨k, -, hup, hgoal, -⟩
        have hnone := clear_of_cycle hcycle hclear (k + 1) k (Nat.lt_succ_self k) b hup
        rw [hgoal] at hnone
        cases hnone
    · cases hnext : next a with
      | none =>
        constructor
        · intro h
          cases h
        · rintro ⟨k, -, hup, -⟩
          rw [up_succ, hnext] at hup
          cases hup
      | some c =>
        simp only
        split_ifs with hgoal
        · constructor
          · intro h
            refine ⟨0, Nat.succ_pos n, ?_, Option.some.inj h ▸ hgoal, fun j hj => by omega⟩
            rw [up_succ_of_next hnext]
            exact h
          · rintro ⟨k, -, hup, -, hclear⟩
            rw [up_succ_of_next hnext] at hup
            cases k with
            | zero => exact hup
            | succ k =>
              have hnone := ((clear_succ_iff hnext).1 hclear).1
              rw [hgoal] at hnone
              cases hnone
        · have hfalse : goal c = false := Bool.eq_false_iff.2 hgoal
          have hseen' := seen_next hseen hnext hfalse
          rw [ih (a :: seen) hseen']
          constructor
          · rintro ⟨k, hk, hup, hb, hclear⟩
            refine ⟨k + 1, by omega, ?_, hb, (clear_succ_iff hnext).2 ⟨hfalse, hclear⟩⟩
            rw [up_succ_of_next hnext]
            exact hup
          · rintro ⟨k, hk, hup, hb, hclear⟩
            rw [up_succ_of_next hnext] at hup
            cases k with
            | zero =>
              rw [← Option.some.inj hup, hfalse] at hb
              cases hb
            | succ k =>
              exact ⟨k, by omega, hup, hb, ((clear_succ_iff hnext).1 hclear).2⟩

/-- **A climb ends at the nearest goal**, if one is at most `n` links up. -/
theorem climb_eq_some_iff (n : ℕ) (a b : α) :
    climb next goal n [] a = some b ↔
      ∃ k, k < n ∧ up next (k + 1) a = some b ∧ goal b = true ∧ Clear next goal k a :=
  climb_spec n [] (fun _ hs => absurd hs List.not_mem_nil) b

end Climb

/-! ## Ancestors in a relation -/

/-- `b` is `n` links above `a`. -/
inductive Above (R : α → α → Prop) : ℕ → α → α → Prop
  | refl (a : α) : Above R 0 a a
  | step {n : ℕ} {a b c : α} : Above R n a b → R b c → Above R (n + 1) a c

theorem Above.transGen {R : α → α → Prop} {n : ℕ} {a b c : α} (h : R a b) (hup : Above R n b c) :
    Relation.TransGen R a c := by
  induction hup with
  | refl b => exact .single h
  | step _ hlink ih => exact (ih h).tail hlink

theorem above_succ_iff {R : α → α → Prop} {n : ℕ} {a c : α} :
    Above R (n + 1) a c ↔ ∃ b, Above R n a b ∧ R b c := by
  constructor
  · rintro (_ | ⟨hup, hlink⟩)
    exact ⟨_, hup, hlink⟩
  · rintro ⟨b, hup, hlink⟩
    exact .step hup hlink

/-- None of the nodes one to `n` links above `a` is a goal. -/
def Bare (R : α → α → Prop) (Goal : α → Prop) (n : ℕ) (a : α) : Prop :=
  ∀ j, j < n → ∀ c, Above R (j + 1) a c → ¬ Goal c

theorem bare_succ_iff {R : α → α → Prop} {Goal : α → Prop} {n : ℕ} {a : α} :
    Bare R Goal (n + 1) a ↔ Bare R Goal n a ∧ ∀ c, Above R (n + 1) a c → ¬ Goal c := by
  constructor
  · intro h
    exact ⟨fun j hj => h j (Nat.lt_succ_of_lt hj), h n (Nat.lt_succ_self n)⟩
  · rintro ⟨hbefore, hlast⟩ j hj
    rcases Nat.lt_succ_iff_lt_or_eq.1 hj with hlt | rfl
    · exact hbefore j hlt
    · exact hlast

/-- `b` is a goal above `a`, at most `n` links up, and no goal is nearer. -/
def Nearest (R : α → α → Prop) (Goal : α → Prop) (n : ℕ) (a b : α) : Prop :=
  ∃ k, k < n ∧ Above R (k + 1) a b ∧ Goal b ∧ Bare R Goal k a

theorem Nearest.transGen {R : α → α → Prop} {Goal : α → Prop} {n : ℕ} {a b c : α} (hlink : R c a)
    (h : Nearest R Goal n a b) : Relation.TransGen R c b := by
  rcases h with ⟨k, -, hup, -, -⟩
  exact hup.transGen hlink

/-- The function follows the relation, and knows its goals, on the way from `a` to the nearest
goal. -/
def Follows (R : α → α → Prop) (Goal : α → Prop) (next : α → Option α) (goal : α → Bool) (n : ℕ)
    (a : α) : Prop :=
  ∀ j, j < n → ∀ c, Above R j a c → Bare R Goal j a →
    (∀ b, R c b ↔ next c = some b) ∧ ∀ b, R c b → (goal b = true ↔ Goal b)

section Follows

variable {R : α → α → Prop} {Goal : α → Prop} {next : α → Option α} {goal : α → Bool} {n : ℕ}
  {a : α}

/-- Nodes that are the same for both lead to the same nodes. -/
theorem Follows.above_succ_iff_of (h : Follows R Goal next goal n a) {k : ℕ} (hk : k < n)
    (hbare : Bare R Goal k a) (hsame : ∀ b, Above R k a b ↔ up next k a = some b) (c : α) :
    Above R (k + 1) a c ↔ up next (k + 1) a = some c := by
  rw [above_succ_iff]
  constructor
  · rintro ⟨b, hup, hlink⟩
    rw [up_add, (hsame b).1 hup]
    exact (up_succ_of_next (((h k hk b hup hbare).1 c).1 hlink) 0).trans rfl
  · intro hup
    rcases next_of_up_succ hup with ⟨b, hb, hnext⟩
    have hab := (hsame b).2 hb
    exact ⟨b, hab, ((h k hk b hab hbare).1 c).2 hnext⟩

/-- On the way to the nearest goal both lead to the same nodes. -/
theorem Follows.above_iff (h : Follows R Goal next goal n a) {k : ℕ} (hk : k ≤ n)
    (hbare : Bare R Goal k a) (c : α) : Above R k a c ↔ up next k a = some c := by
  induction k generalizing c with
  | zero =>
    constructor
    · rintro (_ | _)
      rfl
    · intro hup
      cases hup
      exact .refl a
  | succ k ih =>
    have hbefore := (bare_succ_iff.1 hbare).1
    exact h.above_succ_iff_of hk hbefore (ih (Nat.le_of_succ_le hk) hbefore) c

/-- One link further than the nodes that are no goals. -/
theorem Follows.above_succ_iff (h : Follows R Goal next goal n a) {k : ℕ} (hk : k < n)
    (hbare : Bare R Goal k a) (c : α) : Above R (k + 1) a c ↔ up next (k + 1) a = some c :=
  h.above_succ_iff_of hk hbare (h.above_iff (Nat.le_of_lt hk) hbare) c

/-- A node one link further is a goal for both or for neither. -/
theorem Follows.goal_iff (h : Follows R Goal next goal n a) {k : ℕ} (hk : k < n)
    (hbare : Bare R Goal k a) {c : α} (hup : Above R (k + 1) a c) : goal c = true ↔ Goal c := by
  rcases Ascent.above_succ_iff.1 hup with ⟨b, hab, hlink⟩
  exact (h k hk b hab hbare).2 c hlink

theorem Follows.bare_iff (h : Follows R Goal next goal n a) {k : ℕ} (hk : k ≤ n) :
    Bare R Goal k a ↔ Clear next goal k a := by
  induction k with
  | zero =>
    constructor
    · intro _ j hj
      omega
    · intro _ j hj
      omega
  | succ k ih =>
    have hprev := ih (Nat.le_of_succ_le hk)
    constructor
    · intro hbare j hj c hc
      have hnot := hbare j hj
      have hj' : Bare R Goal j a := fun i hi => hbare i (by omega)
      have hup := (h.above_succ_iff (by omega) hj' c).2 hc
      exact Bool.eq_false_iff.2 fun hgoal =>
        hnot c hup ((h.goal_iff (by omega) hj' hup).1 hgoal)
    · intro hclear
      have hbare := hprev.2 fun j hj => hclear j (by omega)
      refine bare_succ_iff.2 ⟨hbare, fun c hup hgoal => ?_⟩
      have hfalse := hclear k (Nat.lt_succ_self k) c ((h.above_succ_iff hk hbare c).1 hup)
      rw [(h.goal_iff hk hbare hup).2 hgoal] at hfalse
      cases hfalse

/-- **A climb that follows a relation ends at its nearest goal.** -/
theorem Follows.climb_eq_some_iff [DecidableEq α] (h : Follows R Goal next goal n a) (b : α) :
    climb next goal n [] a = some b ↔ Nearest R Goal n a b := by
  rw [Ascent.climb_eq_some_iff]
  refine exists_congr fun k => and_congr_right fun hk => ?_
  constructor
  · rintro ⟨hup, hgoal, hclear⟩
    have hbare := (h.bare_iff (Nat.le_of_lt hk)).2 hclear
    have habove := (h.above_succ_iff hk hbare b).2 hup
    exact ⟨habove, (h.goal_iff hk hbare habove).1 hgoal, hbare⟩
  · rintro ⟨habove, hgoal, hbare⟩
    exact ⟨(h.above_succ_iff hk hbare b).1 habove, (h.goal_iff hk hbare habove).2 hgoal,
      (h.bare_iff (Nat.le_of_lt hk)).1 hbare⟩

end Follows

end Ascent
