import LightTrack.Lib.Run
import Mathlib.Data.Finset.Basic
import Mathlib.Data.List.Count
import Mathlib.Logic.Function.Basic
import Mathlib.Tactic.Basic

/-! # Admission of paid investigations

`try_admit_investigation` as the sequence of its lock-protected sections, any number of calls and
guards at once, under a clock that does not go backwards.

* `Breaker.advance` : one section of a call or of the drop of a guard,
* `World.Slots` : one holder of a reserved project and one permit for each that holds one, in every
  interleaving,
* `World.Ledger` : what the two counters know of the admissions, when no call is admitted past
  checks that another admission has overtaken,
* `admission_caps` : the four caps.
-/

namespace LightTrack.Responder

/-- `HOUR`, in nanoseconds. -/
def HOUR : ℕ := 3600 * 1000000000

/-- `Instant::duration_since`, which saturates. -/
def durationSince (now t : ℕ) : ℕ := now - t

/-- The part of the breaker that guards investigations. -/
structure Breaker where
  inflight : Finset String := ∅
  lastInvestigate : String → Option ℕ := fun _ => none
  investigateRecent : List ℕ := []
  permits : ℕ

/-- At least one permit, so that a configured `0` does not wedge every investigation. -/
def Breaker.new (maxConcurrentInvestigations : ℕ) : Breaker :=
  { permits := max maxConcurrentInvestigations 1 }

structure AdmitLimits where
  cooldown : ℕ
  maxPerHour : UInt32

/-- The section a call runs next; an admitted call ends as a guard, and the drop of the guard has
two sections of its own. -/
inductive Pc
  | cooldown
  | hourly
  | reserve
  | acquire
  | backOut
  | recordLast
  | recordRecent
  | running
  | release
deriving DecidableEq, Repr

/-- A call or the guard it returned: its project, the instant it read first, and the number of
admissions there were at that instant. -/
structure Task where
  project : String
  now : ℕ
  pc : Pc
  seen : ℕ
deriving DecidableEq, Repr

/-- What a section ends in. -/
inductive Outcome
  | go (pc : Pc)
  | refused (reason : String)
  | ended
deriving DecidableEq, Repr

/-- The task after a section, if there is one left. -/
def Outcome.task (t : Task) : Outcome → List Task
  | .go pc => [{ t with pc := pc }]
  | .refused _ => []
  | .ended => []

namespace Breaker

def withinCooldown (b : Breaker) (cooldown : ℕ) (t : Task) : Bool :=
  match b.lastInvestigate t.project with
  | some last => decide (durationSince t.now last < cooldown)
  | none => false

/-- Admissions of the last hour that are on record. -/
def recentCount (b : Breaker) (now : ℕ) : ℕ :=
  b.investigateRecent.countP fun last => durationSince now last < HOUR

/-- The next lock-protected section of a task. -/
def advance (c : AdmitLimits) (b : Breaker) (t : Task) : Breaker × Outcome :=
  match t.pc with
  | .cooldown =>
    if b.withinCooldown c.cooldown t then
      (b, .refused ("'" ++ t.project ++ "' was investigated within cooldown (" ++
        toString (c.cooldown / 1000000000) ++ "s)"))
    else (b, .go .hourly)
  | .hourly =>
    -- the count is narrowed to 32 bits before it is compared
    if c.maxPerHour ≤ UInt32.ofNat (b.recentCount t.now) then
      (b, .refused ("hourly investigation cap reached (" ++ toString c.maxPerHour.toNat ++ "/h)"))
    else (b, .go .reserve)
  | .reserve =>
    if t.project ∈ b.inflight then
      (b, .refused "an investigation for this project is already in flight")
    else ({ b with inflight := insert t.project b.inflight }, .go .acquire)
  | .acquire =>
    if 0 < b.permits then ({ b with permits := b.permits - 1 }, .go .recordLast)
    else (b, .go .backOut)
  | .backOut =>
    ({ b with inflight := b.inflight.erase t.project },
      .refused "max concurrent investigations reached")
  | .recordLast =>
    ({ b with lastInvestigate := Function.update b.lastInvestigate t.project (some t.now) },
      .go .recordRecent)
  | .recordRecent =>
    ({ b with investigateRecent :=
        (b.investigateRecent.filter fun last => durationSince t.now last < HOUR) ++ [t.now] },
      .go .running)
  -- `InvestigationGuard::drop`, and after it the drop of the permit
  | .running => ({ b with inflight := b.inflight.erase t.project }, .go .release)
  | .release => ({ b with permits := b.permits + 1 }, .ended)

end Breaker

/-! ## Calls and guards in any order -/

/-- The breaker with the calls and guards alive, and the admissions so far. -/
structure World where
  clock : ℕ
  breaker : Breaker
  tasks : List Task
  admissions : List (String × ℕ)

inductive Label
  | call (project : String) (now : ℕ)
  | step (i : ℕ)
deriving DecidableEq, Repr

namespace World

def new (maxConcurrentInvestigations : ℕ) : World :=
  ⟨0, Breaker.new maxConcurrentInvestigations, [], []⟩

/-- A call reads the clock. -/
def call (w : World) (project : String) (now : ℕ) : World :=
  { w with
    clock := now
    tasks := w.tasks ++ [⟨project, now, .cooldown, w.admissions.length⟩] }

/-- The section of `t`, which stands between `before` and `after`; taking the permit admits. -/
def advance (c : AdmitLimits) (w : World) (before : List Task) (t : Task) (after : List Task) :
    World :=
  let done := w.breaker.advance c t
  { clock := w.clock
    breaker := done.1
    tasks := before ++ done.2.task t ++ after
    admissions :=
      if done.2 = .go .recordLast then w.admissions ++ [(t.project, t.now)] else w.admissions }

inductive Step (c : AdmitLimits) : World → Label → World → Prop
  | call (w : World) (project : String) (now : ℕ) (h : w.clock ≤ now) :
      Step c w (.call project now) (w.call project now)
  | step (w : World) (before : List Task) (t : Task) (after : List Task)
      (h : w.tasks = before ++ t :: after) :
      Step c w (.step before.length) (w.advance c before t after)

end World

/-! ## What a section does -/

/-- Between the reserve and the drop a task holds the slot of its project. -/
def Pc.reserved : Pc → Bool
  | .acquire | .backOut | .recordLast | .recordRecent | .running => true
  | .cooldown | .hourly | .reserve | .release => false

/-- Between the permit and the end of the drop a task holds a permit. -/
def Pc.permitted : Pc → Bool
  | .recordLast | .recordRecent | .running | .release => true
  | .cooldown | .hourly | .reserve | .acquire | .backOut => false

/-- Admitted, and the guard not dropped. -/
def Pc.admitted : Pc → Bool
  | .recordLast | .recordRecent | .running => true
  | .cooldown | .hourly | .reserve | .acquire | .backOut | .release => false

/-- Admitted, with a counter still to record. -/
def Pc.recording : Pc → Bool
  | .recordLast | .recordRecent => true
  | .cooldown | .hourly | .reserve | .acquire | .backOut | .running | .release => false

/-- Not decided yet. -/
def Pc.undecided : Pc → Bool
  | .cooldown | .hourly | .reserve | .acquire => true
  | .backOut | .recordLast | .recordRecent | .running | .release => false

/-- The sections that can follow each other, with their guards and their writes. -/
inductive Breaker.Section (c : AdmitLimits) (b : Breaker) (t : Task) : Breaker → Outcome → Prop
  | refuse (reason : String) (h : t.pc = .cooldown ∨ t.pc = .hourly ∨ t.pc = .reserve) :
      Section c b t b (.refused reason)
  | cooldown (h : t.pc = .cooldown) (hfree : b.withinCooldown c.cooldown t = false) :
      Section c b t b (.go .hourly)
  | hourly (h : t.pc = .hourly) (hfree : ¬ c.maxPerHour ≤ UInt32.ofNat (b.recentCount t.now)) :
      Section c b t b (.go .reserve)
  | reserve (h : t.pc = .reserve) (hfree : t.project ∉ b.inflight) :
      Section c b t { b with inflight := insert t.project b.inflight } (.go .acquire)
  | acquire (h : t.pc = .acquire) (hfree : 0 < b.permits) :
      Section c b t { b with permits := b.permits - 1 } (.go .recordLast)
  | full (h : t.pc = .acquire) : Section c b t b (.go .backOut)
  | backOut (reason : String) (h : t.pc = .backOut) :
      Section c b t { b with inflight := b.inflight.erase t.project } (.refused reason)
  | recordLast (h : t.pc = .recordLast) :
      Section c b t
        { b with lastInvestigate := Function.update b.lastInvestigate t.project (some t.now) }
        (.go .recordRecent)
  | recordRecent (h : t.pc = .recordRecent) :
      Section c b t
        { b with investigateRecent :=
            (b.investigateRecent.filter fun last => durationSince t.now last < HOUR) ++ [t.now] }
        (.go .running)
  | running (h : t.pc = .running) :
      Section c b t { b with inflight := b.inflight.erase t.project } (.go .release)
  | release (h : t.pc = .release) : Section c b t { b with permits := b.permits + 1 } .ended

theorem Breaker.advance_section (c : AdmitLimits) (b : Breaker) (t : Task) :
    Section c b t (b.advance c t).1 (b.advance c t).2 := by
  unfold advance
  split
  · rename_i h
    split
    · exact .refuse _ (Or.inl h)
    · rename_i hfree
      exact .cooldown h (Bool.not_eq_true _ ▸ hfree)
  · rename_i h
    split
    · exact .refuse _ (Or.inr (Or.inl h))
    · rename_i hfree
      exact .hourly h hfree
  · rename_i h
    split
    · exact .refuse _ (Or.inr (Or.inr h))
    · rename_i hfree
      exact .reserve h hfree
  · rename_i h
    split
    · rename_i hfree
      exact .acquire h hfree
    · exact .full h
  · rename_i h
    exact .backOut _ h
  · rename_i h
    exact .recordLast h
  · rename_i h
    exact .recordRecent h
  · rename_i h
    exact .running h
  · rename_i h
    exact .release h

/-! ## Slots and permits -/

/-- What the task is after the section, as far as `has` can tell; nothing if it is gone. -/
def Outcome.has (has : Pc → Bool) : Outcome → Bool
  | .go pc => has pc
  | .refused _ => false
  | .ended => false

/-- A slot is taken once by the reserve, and given back by the back out and by the drop. -/
theorem Breaker.Section.slot {c : AdmitLimits} {b b' : Breaker} {t : Task} {out : Outcome}
    (h : Section c b t b' out) :
    (out.has Pc.reserved = t.pc.reserved ∧ b'.inflight = b.inflight) ∨
    (t.pc.reserved = false ∧ out.has Pc.reserved = true ∧ t.project ∉ b.inflight ∧
      b'.inflight = insert t.project b.inflight) ∨
    (t.pc.reserved = true ∧ out.has Pc.reserved = false ∧
      b'.inflight = b.inflight.erase t.project) := by
  cases h with
  | refuse reason h =>
    refine Or.inl ⟨?_, rfl⟩
    rcases h with h | h | h <;> rw [h] <;> rfl
  | cooldown h _ => exact Or.inl ⟨by rw [h]; rfl, rfl⟩
  | hourly h _ => exact Or.inl ⟨by rw [h]; rfl, rfl⟩
  | reserve h hfree => exact Or.inr (Or.inl ⟨by rw [h]; rfl, rfl, hfree, rfl⟩)
  | acquire h _ => exact Or.inl ⟨by rw [h]; rfl, rfl⟩
  | full h => exact Or.inl ⟨by rw [h]; rfl, rfl⟩
  | backOut _ h => exact Or.inr (Or.inr ⟨by rw [h]; rfl, rfl, rfl⟩)
  | recordLast h => exact Or.inl ⟨by rw [h]; rfl, rfl⟩
  | recordRecent h => exact Or.inl ⟨by rw [h]; rfl, rfl⟩
  | running h => exact Or.inr (Or.inr ⟨by rw [h]; rfl, rfl, rfl⟩)
  | release h => exact Or.inl ⟨by rw [h]; rfl, rfl⟩

/-- A permit is taken once, from those that are free, and given back at the end. -/
theorem Breaker.Section.permit {c : AdmitLimits} {b b' : Breaker} {t : Task} {out : Outcome}
    (h : Section c b t b' out) :
    (out.has Pc.permitted).toNat + b'.permits = t.pc.permitted.toNat + b.permits := by
  cases h with
  | refuse reason h => rcases h with h | h | h <;> rw [h] <;> rfl
  | cooldown h _ => rw [h]; rfl
  | hourly h _ => rw [h]; rfl
  | reserve h _ => rw [h]; rfl
  | acquire h hfree =>
    rw [h]
    change 1 + (b.permits - 1) = 0 + b.permits
    omega
  | full h => rw [h]; rfl
  | backOut _ h => rw [h]; rfl
  | recordLast h => rw [h]; rfl
  | recordRecent h => rw [h]; rfl
  | running h => rw [h]; rfl
  | release h =>
    rw [h]
    change 0 + (b.permits + 1) = 1 + b.permits
    omega

/-- How many tasks of a project `has` counts. -/
def count (has : Pc → Bool) (p : String) (tasks : List Task) : ℕ :=
  tasks.countP fun t => t.project = p && has t.pc

/-- How many tasks `has` counts. -/
def total (has : Pc → Bool) (tasks : List Task) : ℕ := tasks.countP fun t => has t.pc

section

variable {has : Pc → Bool} {p : String} {before after : List Task} {t : Task} {out : Outcome}

theorem count_split : count has p (before ++ t :: after) =
    count has p before + (if t.project = p then (has t.pc).toNat else 0) + count has p after := by
  simp only [count, List.countP_append, List.countP_cons]
  by_cases hp : t.project = p <;> cases has t.pc <;> simp [hp]; omega

theorem count_task : count has p (before ++ out.task t ++ after) =
    count has p before + (if t.project = p then (out.has has).toNat else 0) +
      count has p after := by
  cases out with
  | go pc =>
    simp only [Outcome.task, List.append_assoc, List.singleton_append]
    exact count_split
  | refused _ => simp [Outcome.task, Outcome.has, count]
  | ended => simp [Outcome.task, Outcome.has, count]

theorem total_split : total has (before ++ t :: after) =
    total has before + (has t.pc).toNat + total has after := by
  simp only [total, List.countP_append, List.countP_cons]
  cases has t.pc <;> simp; omega

theorem total_task : total has (before ++ out.task t ++ after) =
    total has before + (out.has has).toNat + total has after := by
  cases out with
  | go pc =>
    simp only [Outcome.task, List.append_assoc, List.singleton_append]
    exact total_split
  | refused _ => simp [Outcome.task, Outcome.has, total]
  | ended => simp [Outcome.task, Outcome.has, total]

end

/-- How many tasks of the project the in-flight set allows for. -/
def slot (inflight : Finset String) (p : String) : ℕ := if p ∈ inflight then 1 else 0

theorem slot_insert_self (s : Finset String) (p : String) : slot (insert p s) p = 1 :=
  if_pos (Finset.mem_insert_self p s)

theorem slot_erase_self (s : Finset String) (p : String) : slot (s.erase p) p = 0 :=
  if_neg (Finset.notMem_erase p s)

theorem slot_insert_of_ne {s : Finset String} {p q : String} (h : q ≠ p) :
    slot (insert q s) p = slot s p := by
  simp [slot, h.symm]

theorem slot_erase_of_ne {s : Finset String} {p q : String} (h : q ≠ p) :
    slot (s.erase q) p = slot s p := by
  simp [slot, h.symm]

namespace World

/-- One holder for each project in flight and none for the others; each permit is free or held. -/
structure Slots (limit : ℕ) (w : World) : Prop where
  inflight : ∀ p, count Pc.reserved p w.tasks = slot w.breaker.inflight p
  permits : total Pc.permitted w.tasks + w.breaker.permits = limit

variable {c : AdmitLimits} {limit : ℕ} {w w' : World} {l : Label}

theorem init_slots (limit : ℕ) : Slots (max limit 1) (new limit) :=
  ⟨fun _ => rfl, Nat.zero_add _⟩

theorem call_slots {p : String} {now : ℕ} (h : Slots limit w) : Slots limit (w.call p now) := by
  constructor
  · intro q
    have hq := h.inflight q
    simp only [call, count_split]
    rw [hq]
    split <;> rfl
  · have hperm := h.permits
    simp only [call, total_split]
    exact hperm

/-- A section changes the slots by what its own task gains and gives back. -/
theorem advance_slots {before after : List Task} {t : Task} (hw : w.tasks = before ++ t :: after)
    (h : Slots limit w) : Slots limit (w.advance c before t after) := by
  have hsec := w.breaker.advance_section c t
  have hperm := h.permits
  rw [hw, total_split] at hperm
  constructor
  · intro p
    have hp := h.inflight p
    rw [hw, count_split] at hp
    simp only [advance, count_task]
    by_cases hpt : t.project = p
    · subst hpt
      rw [if_pos rfl] at hp ⊢
      rcases hsec.slot with ⟨hsame, hset⟩ | ⟨hold, hnew, hfree, hset⟩ | ⟨hold, hnew, hset⟩
      · rw [hset, hsame]
        exact hp
      · -- the reserve: nobody held the slot
        have hnone : slot w.breaker.inflight t.project = 0 := if_neg hfree
        rw [hold, hnone] at hp
        rw [hset, hnew, slot_insert_self]
        simp only [Bool.toNat_false, Bool.toNat_true] at hp ⊢
        omega
      · -- the slot is given back by the only task that held it
        have hone : slot w.breaker.inflight t.project ≤ 1 := by
          unfold slot
          split <;> omega
        rw [hold] at hp
        rw [hset, hnew, slot_erase_self]
        simp only [Bool.toNat_false, Bool.toNat_true] at hp ⊢
        omega
    · rw [if_neg hpt] at hp ⊢
      rw [hp]
      rcases hsec.slot with ⟨_, hset⟩ | ⟨_, _, _, hset⟩ | ⟨_, _, hset⟩
      · rw [hset]
      · rw [hset, slot_insert_of_ne hpt]
      · rw [hset, slot_erase_of_ne hpt]
  · have hpermit := hsec.permit
    simp only [advance, total_task]
    omega

theorem step_slots (hstep : Step c w l w') (h : Slots limit w) : Slots limit w' := by
  cases hstep with
  | call p now _ => exact call_slots h
  | step before t after hw => exact advance_slots hw h

/-! ## The two counters -/

/-- The last admission of each project. -/
def lastOf (admissions : List (String × ℕ)) : String → Option ℕ :=
  admissions.foldl (fun last a => Function.update last a.1 (some a.2)) fun _ => none

theorem lastOf_append (admissions : List (String × ℕ)) (a : String × ℕ) :
    lastOf (admissions ++ [a]) = Function.update (lastOf admissions) a.1 (some a.2) := by
  simp only [lastOf, List.foldl_append, List.foldl_cons, List.foldl_nil]

/-- Of admissions in the order of their instants, the last of a project bounds all of them. -/
theorem le_lastOf {admissions : List (String × ℕ)} (hsorted : admissions.Pairwise (·.2 ≤ ·.2)) :
    ∀ a ∈ admissions, ∃ v, lastOf admissions a.1 = some v ∧ a.2 ≤ v := by
  induction admissions using List.reverseRecOn with
  | nil => simp
  | append_singleton pre b ih =>
    rcases List.pairwise_append.1 hsorted with ⟨hpre, -, hle⟩
    intro a ha
    rw [lastOf_append]
    by_cases hab : a.1 = b.1
    · refine ⟨b.2, by rw [hab, Function.update_self], ?_⟩
      rcases List.mem_append.1 ha with ha | ha
      · exact hle a ha b (List.mem_singleton_self b)
      · rw [List.mem_singleton.1 ha]
    · rcases List.mem_append.1 ha with ha | ha
      · rcases ih hpre a ha with ⟨v, hv, hav⟩
        exact ⟨v, by rw [Function.update_of_ne hab, hv], hav⟩
      · exact absurd (congrArg Prod.fst (List.mem_singleton.1 ha)) hab

/-- Admissions within the hour before an instant. -/
def inHour (admissions : List (String × ℕ)) (now : ℕ) : ℕ :=
  admissions.countP fun a => durationSince now a.2 < HOUR

/-- Admissions in the hour from an instant on. -/
def inWindow (admissions : List (String × ℕ)) (start : ℕ) : ℕ :=
  admissions.countP fun a => start ≤ a.2 ∧ a.2 < start + HOUR

/-- The instants on record count the admissions of the last hour, at any instant from the last
admission on. -/
def Complete (recent : List ℕ) (admissions : List (String × ℕ)) : Prop :=
  ∀ now, (∀ a ∈ admissions, a.2 ≤ now) →
    (recent.countP fun last => durationSince now last < HOUR) = inHour admissions now

/-- Dropping what is older than an hour at an admission and adding the admission keeps the record
complete. -/
theorem Complete.record {recent : List ℕ} {admissions : List (String × ℕ)} {p : String} {t : ℕ}
    (h : Complete recent admissions) :
    Complete ((recent.filter fun last => durationSince t last < HOUR) ++ [t])
      (admissions ++ [(p, t)]) := by
  intro now hnow
  have ht : t ≤ now := hnow (p, t) (List.mem_append_right _ (List.mem_singleton_self _))
  have hold := h now fun a ha => hnow a (List.mem_append_left _ ha)
  rw [inHour, List.countP_append, List.countP_append, ← inHour, ← hold, List.countP_filter]
  congr 1
  refine List.countP_congr fun last _ => ?_
  simp only [Bool.and_eq_true, decide_eq_true_eq]
  unfold durationSince
  omega

theorem inHour_eq_inWindow {admissions : List (String × ℕ)} {now : ℕ}
    (h : ∀ a ∈ admissions, a.2 ≤ now) :
    inHour admissions now = inWindow admissions (now + 1 - HOUR) := by
  refine List.countP_congr fun a ha => ?_
  have := h a ha
  simp only [decide_eq_true_eq]
  unfold durationSince HOUR
  omega

/-- An admission whose hour had room leaves room in every window of an hour. -/
theorem inWindow_append_le {admissions : List (String × ℕ)} {a : String × ℕ} {cap : ℕ}
    (hcap : ∀ start, inWindow admissions start ≤ cap) (hroom : inHour admissions a.2 < cap)
    (start : ℕ) : inWindow (admissions ++ [a]) start ≤ cap := by
  rw [inWindow, List.countP_append, List.countP_singleton, ← inWindow]
  split
  · rename_i hin
    have hle : inWindow admissions start ≤ inHour admissions a.2 := by
      refine List.countP_mono_left fun b _ hb => ?_
      simp only [decide_eq_true_eq] at hin hb ⊢
      unfold durationSince
      omega
    omega
  · exact hcap start

/-- What a call that no admission has overtaken knows at each of its checks. -/
structure Passed (c : AdmitLimits) (admissions : List (String × ℕ)) (t : Task) : Prop where
  after : ∀ a ∈ admissions, a.2 ≤ t.now
  cooled : t.pc ≠ .cooldown → ∀ a ∈ admissions, a.1 = t.project → a.2 + c.cooldown ≤ t.now
  counted : t.pc = .reserve ∨ t.pc = .acquire → inHour admissions t.now < c.maxPerHour.toNat

/-- What is still to be recorded of an admission completes the counters. -/
structure Owed (b : Breaker) (admissions : List (String × ℕ)) (t : Task) : Prop where
  last : (if t.pc = .recordLast then Function.update b.lastInvestigate t.project (some t.now)
    else b.lastInvestigate) = lastOf admissions
  recent : Complete ((b.investigateRecent.filter fun last => durationSince t.now last < HOUR) ++
    [t.now]) admissions

/-- The admissions respect both limits, and the counters know them or one task still has to
record the last of them. -/
structure Ledger (c : AdmitLimits) (w : World) : Prop where
  clock : ∀ a ∈ w.admissions, a.2 ≤ w.clock
  sorted : w.admissions.Pairwise (·.2 ≤ ·.2)
  apart : w.admissions.Pairwise fun a b => a.1 = b.1 → a.2 + c.cooldown ≤ b.2
  capped : ∀ start, inWindow w.admissions start ≤ c.maxPerHour.toNat
  one : total Pc.recording w.tasks ≤ 1
  began : ∀ t ∈ w.tasks, t.seen ≤ w.admissions.length ∧ t.now ≤ w.clock
  fresh : ∀ t ∈ w.tasks, t.pc.undecided → t.seen = w.admissions.length →
    total Pc.recording w.tasks = 0 ∧ Passed c w.admissions t
  known : total Pc.recording w.tasks = 0 →
    w.breaker.lastInvestigate = lastOf w.admissions ∧
      Complete w.breaker.investigateRecent w.admissions
  owed : ∀ t ∈ w.tasks, t.pc.recording → Owed w.breaker w.admissions t

/-- No admission has overtaken the call: it reads the clock when every admission so far is on
record, and takes its permit before any other is admitted. -/
def Unovertaken (w : World) : Label → Prop
  | .call _ _ => ∀ t ∈ w.tasks, t.pc.recording = false
  | .step i => ∀ t ∈ w.tasks[i]?, t.pc = .acquire → 0 < w.breaker.permits →
      t.seen = w.admissions.length

theorem init_ledger (limit : ℕ) : Ledger c (new limit) where
  clock := fun _ ha => absurd ha List.not_mem_nil
  sorted := List.Pairwise.nil
  apart := List.Pairwise.nil
  capped := fun _ => Nat.zero_le _
  one := Nat.zero_le _
  began := fun _ ht => absurd ht List.not_mem_nil
  fresh := fun _ ht => absurd ht List.not_mem_nil
  known := fun _ => ⟨rfl, fun _ _ => rfl⟩
  owed := fun _ ht => absurd ht List.not_mem_nil

theorem total_eq_zero {has : Pc → Bool} {tasks : List Task} :
    total has tasks = 0 ↔ ∀ t ∈ tasks, has t.pc = false := by
  simp [total, List.countP_eq_zero]

theorem call_ledger {p : String} {now : ℕ} (hclock : w.clock ≤ now)
    (hquiet : ∀ t ∈ w.tasks, t.pc.recording = false) (h : Ledger c w) :
    Ledger c (w.call p now) := by
  have hzero : total Pc.recording w.tasks = 0 := total_eq_zero.2 hquiet
  have hnow : total Pc.recording (w.call p now).tasks = 0 := by
    simp only [call, total_split, hzero]
    rfl
  have hle : ∀ a ∈ w.admissions, a.2 ≤ now := fun a ha => le_trans (h.clock a ha) hclock
  refine ⟨hle, h.sorted, h.apart, h.capped, hnow ▸ Nat.zero_le _, ?_, ?_, fun _ => h.known hzero, ?_⟩
  · intro t ht
    rcases List.mem_append.1 ht with ht | ht
    · exact ⟨(h.began t ht).1, le_trans (h.began t ht).2 hclock⟩
    · rw [List.mem_singleton.1 ht]
      exact ⟨le_refl _, le_refl _⟩
  · intro t ht hund hseen
    refine ⟨hnow, ?_⟩
    rcases List.mem_append.1 ht with ht | ht
    · exact (h.fresh t ht hund hseen).2
    · rw [List.mem_singleton.1 ht]
      refine ⟨hle, fun hne => absurd rfl hne, ?_⟩
      rintro (hpc | hpc) <;> cases hpc
  · intro t ht hrec
    rcases List.mem_append.1 ht with ht | ht
    · rw [hquiet t ht] at hrec
      cases hrec
    · rw [List.mem_singleton.1 ht] at hrec
      cases hrec

section

variable {before after : List Task} {t : Task} {b' : Breaker} {out : Outcome}

theorem mem_after {u : Task} (hu : u ∈ before ++ out.task t ++ after) :
    u ∈ before ++ t :: after ∨ ∃ pc, out = .go pc ∧ u = { t with pc := pc } := by
  rcases List.mem_append.1 hu with hu | hu
  · rcases List.mem_append.1 hu with hu | hu
    · exact Or.inl (List.mem_append_left _ hu)
    · cases out with
      | go pc => exact Or.inr ⟨pc, rfl, List.mem_singleton.1 hu⟩
      | refused _ => exact absurd hu List.not_mem_nil
      | ended => exact absurd hu List.not_mem_nil
  · exact Or.inl (List.mem_append_right _ (List.mem_cons_of_mem _ hu))

/-- A section that admits nobody and records nothing. -/
theorem quiet_ledger (hw : w.tasks = before ++ t :: after) (h : Ledger c w)
    (hlast : b'.lastInvestigate = w.breaker.lastInvestigate)
    (hrecent : b'.investigateRecent = w.breaker.investigateRecent)
    (hquiet : t.pc.recording = false) (hout : out.has Pc.recording = false)
    (hnext : ∀ pc, out = .go pc → pc.undecided → t.pc.undecided ∧
      (total Pc.recording w.tasks = 0 → Passed c w.admissions t →
        Passed c w.admissions { t with pc := pc })) :
    Ledger c ⟨w.clock, b', before ++ out.task t ++ after, w.admissions⟩ := by
  have hmem : t ∈ w.tasks := hw ▸ List.mem_append_right _ List.mem_cons_self
  have htotal : total Pc.recording (before ++ out.task t ++ after) =
      total Pc.recording w.tasks := by
    rw [hw, total_task, total_split, hquiet, hout]
  refine ⟨h.clock, h.sorted, h.apart, h.capped, htotal ▸ h.one, ?_, ?_, ?_, ?_⟩
  · intro u hu
    rcases mem_after hu with hu | ⟨pc, -, rfl⟩
    · exact h.began u (hw ▸ hu)
    · exact h.began t hmem
  · intro u hu hund hseen
    simp only [htotal]
    rcases mem_after hu with hu | ⟨pc, hpc, rfl⟩
    · exact h.fresh u (hw ▸ hu) hund hseen
    · rcases hnext pc hpc hund with ⟨hunt, hpass⟩
      rcases h.fresh t hmem hunt hseen with ⟨hzero, hpassed⟩
      exact ⟨hzero, hpass hzero hpassed⟩
  · intro hzero
    simp only [htotal] at hzero
    simp only [hlast, hrecent]
    exact h.known hzero
  · intro u hu hrec
    rcases mem_after hu with hu | ⟨pc, hpc, rfl⟩
    · have howed := h.owed u (hw ▸ hu) hrec
      exact ⟨by simp only [hlast]; exact howed.last, by simp only [hrecent]; exact howed.recent⟩
    · rw [hpc] at hout
      rw [show pc.recording = false from hout] at hrec
      cases hrec

/-- Taking the permit: the checks still hold of every admission, so this one respects the limits,
and no other task has anything left to record. -/
theorem acquire_ledger (hw : w.tasks = before ++ t :: after) (h : Ledger c w)
    (hlast : b'.lastInvestigate = w.breaker.lastInvestigate)
    (hrecent : b'.investigateRecent = w.breaker.investigateRecent)
    (hpc : t.pc = .acquire) (hseen : t.seen = w.admissions.length) :
    Ledger c ⟨w.clock, b', before ++ Outcome.task t (.go .recordLast) ++ after,
      w.admissions ++ [(t.project, t.now)]⟩ := by
  have hmem : t ∈ w.tasks := hw ▸ List.mem_append_right _ List.mem_cons_self
  rcases h.fresh t hmem (by rw [hpc]; rfl) hseen with ⟨hzero, hpass⟩
  rcases h.known hzero with ⟨hknown, hcomplete⟩
  have hone : total Pc.recording (before ++ Outcome.task t (.go .recordLast) ++ after) = 1 := by
    have := hzero
    rw [hw, total_split] at this
    rw [total_task]
    change _ + 1 + _ = 1
    omega
  have hcool := hpass.cooled (by rw [hpc]; exact Pc.noConfusion)
  refine ⟨?_, ?_, ?_, ?_, hone.le, ?_, ?_, ?_, ?_⟩
  · intro a ha
    rcases List.mem_append.1 ha with ha | ha
    · exact h.clock a ha
    · rw [List.mem_singleton.1 ha]
      exact (h.began t hmem).2
  · refine List.pairwise_append.2 ⟨h.sorted, List.pairwise_singleton _ _, fun a ha b hb => ?_⟩
    rw [List.mem_singleton.1 hb]
    exact hpass.after a ha
  · refine List.pairwise_append.2 ⟨h.apart, List.pairwise_singleton _ _, fun a ha b hb => ?_⟩
    rw [List.mem_singleton.1 hb]
    exact hcool a ha
  · exact inWindow_append_le h.capped (hpass.counted (Or.inr hpc))
  · intro u hu
    have hle : w.admissions.length ≤ (w.admissions ++ [(t.project, t.now)]).length :=
      List.length_append ▸ Nat.le_add_right _ _
    rcases mem_after hu with hu | ⟨pc, -, rfl⟩
    · exact ⟨le_trans (h.began u (hw ▸ hu)).1 hle, (h.began u (hw ▸ hu)).2⟩
    · exact ⟨le_trans (h.began t hmem).1 hle, (h.began t hmem).2⟩
  · -- every other call has been overtaken
    intro u hu _ hu'
    have hle : u.seen ≤ w.admissions.length := by
      rcases mem_after hu with hu | ⟨pc, -, rfl⟩
      · exact (h.began u (hw ▸ hu)).1
      · exact (h.began t hmem).1
    rw [show u.seen = w.admissions.length + 1 by simpa using hu'] at hle
    omega
  · intro hnone
    simp only [hone] at hnone
    omega
  · intro u hu hrec
    rcases mem_after hu with hu | ⟨pc, hgo, rfl⟩
    · rw [total_eq_zero.1 hzero u (hw ▸ hu)] at hrec
      cases hrec
    · rw [← Outcome.go.inj hgo]
      refine ⟨?_, ?_⟩
      · simp only [if_true, hlast, hknown]
        exact (lastOf_append w.admissions (t.project, t.now)).symm
      · simp only [hrecent]
        exact hcomplete.record

/-- The one task that records does so for the last admission; what it still owes shrinks. -/
theorem record_ledger {pc : Pc} (hw : w.tasks = before ++ t :: after) (h : Ledger c w)
    (hrec : t.pc.recording) (hund : pc.undecided = false)
    (howed : pc.recording → Owed b' w.admissions { t with pc := pc })
    (hknown : pc.recording = false → b'.lastInvestigate = lastOf w.admissions ∧
      Complete b'.investigateRecent w.admissions) :
    Ledger c ⟨w.clock, b', before ++ Outcome.task t (.go pc) ++ after, w.admissions⟩ := by
  have hmem : t ∈ w.tasks := hw ▸ List.mem_append_right _ List.mem_cons_self
  -- at most one task records, and it is this one
  have hone := h.one
  rw [hw, total_split, hrec] at hone
  change _ + 1 + _ ≤ 1 at hone
  have hothers : ∀ u ∈ before ++ after, u.pc.recording = false := by
    intro u hu
    rcases List.mem_append.1 hu with hu | hu
    · exact total_eq_zero.1 (by omega) u hu
    · exact total_eq_zero.1 (by omega) u hu
  have hcases : ∀ u ∈ before ++ Outcome.task t (.go pc) ++ after,
      u ∈ before ++ after ∨ u = { t with pc := pc } := by
    intro u hu
    simp only [Outcome.task, List.mem_append, List.mem_singleton] at hu ⊢
    rcases hu with (hu | hu) | hu
    · exact Or.inl (Or.inl hu)
    · exact Or.inr hu
    · exact Or.inl (Or.inr hu)
  have hsub : ∀ u ∈ before ++ after, u ∈ w.tasks := by
    intro u hu
    rw [hw]
    rcases List.mem_append.1 hu with hu | hu
    · exact List.mem_append_left _ hu
    · exact List.mem_append_right _ (List.mem_cons_of_mem _ hu)
  have hpos : total Pc.recording w.tasks ≠ 0 := by
    intro hzero
    rw [total_eq_zero.1 hzero t hmem] at hrec
    cases hrec
  refine ⟨h.clock, h.sorted, h.apart, h.capped, ?_, ?_, ?_, ?_, ?_⟩
  · simp only [total_task]
    have : (Outcome.has Pc.recording (.go pc)).toNat ≤ 1 := Bool.toNat_le _
    omega
  · intro u hu
    rcases hcases u hu with hu | rfl
    · exact h.began u (hsub u hu)
    · exact h.began t hmem
  · intro u hu hu' hseen
    rcases hcases u hu with hu | rfl
    · -- no other task has seen fresh state while one records
      exact absurd (h.fresh u (hsub u hu) hu' hseen).1 hpos
    · rw [show pc.undecided = false from hund] at hu'
      cases hu'
  · intro hzero
    refine hknown (total_eq_zero.1 hzero { t with pc := pc } ?_)
    exact List.mem_append_left _ (List.mem_append_right _ (List.mem_singleton_self _))
  · intro u hu hu'
    rcases hcases u hu with hu | rfl
    · rw [hothers u hu] at hu'
      cases hu'
    · exact howed hu'

/-- The cooldown check, when the counters know every admission. -/
theorem cooled_of_free (h : Ledger c w) (hzero : total Pc.recording w.tasks = 0)
    (hpass : Passed c w.admissions t)
    (hfree : w.breaker.withinCooldown c.cooldown t = false) :
    ∀ a ∈ w.admissions, a.1 = t.project → a.2 + c.cooldown ≤ t.now := by
  intro a ha hat
  rcases le_lastOf h.sorted a ha with ⟨v, hv, hav⟩
  have hlate := hpass.after a ha
  unfold Breaker.withinCooldown at hfree
  rw [(h.known hzero).1, ← hat, hv] at hfree
  have hge : ¬ durationSince t.now v < c.cooldown := of_decide_eq_false hfree
  unfold durationSince at hge
  omega

/-- The hourly check, when the counters know every admission: at most the cap of them are in the
hour, so the count survives the narrowing. -/
theorem counted_of_free (h : Ledger c w) (hzero : total Pc.recording w.tasks = 0)
    (hpass : Passed c w.admissions t)
    (hfree : ¬ c.maxPerHour ≤ UInt32.ofNat (w.breaker.recentCount t.now)) :
    inHour w.admissions t.now < c.maxPerHour.toNat := by
  have hcount : w.breaker.recentCount t.now = inHour w.admissions t.now :=
    (h.known hzero).2 t.now hpass.after
  have hcap : inHour w.admissions t.now ≤ c.maxPerHour.toNat := by
    rw [inHour_eq_inWindow hpass.after]
    exact h.capped _
  have hlt : c.maxPerHour.toNat < 2 ^ 32 := c.maxPerHour.toNat_lt
  rw [hcount, UInt32.not_le, UInt32.lt_iff_toNat_lt,
    UInt32.toNat_ofNat_of_lt' (lt_of_le_of_lt hcap hlt)] at hfree
  exact hfree

theorem section_ledger (hw : w.tasks = before ++ t :: after) (h : Ledger c w)
    (hsec : Breaker.Section c w.breaker t b' out)
    (hcond : t.pc = .acquire → 0 < w.breaker.permits → t.seen = w.admissions.length) :
    Ledger c ⟨w.clock, b', before ++ out.task t ++ after,
      if out = .go .recordLast then w.admissions ++ [(t.project, t.now)] else w.admissions⟩ := by
  -- one case for each section of the critical path; only recording changes the ledger
  cases hsec with
  | refuse reason hpc =>
    refine quiet_ledger hw h rfl rfl ?_ rfl fun pc hgo => nomatch hgo
    rcases hpc with hpc | hpc | hpc <;> rw [hpc] <;> rfl
  | cooldown hpc hfree =>
    refine quiet_ledger hw h rfl rfl (by rw [hpc]; rfl) rfl fun pc hgo _ => ⟨by rw [hpc]; rfl, ?_⟩
    intro hzero hpass
    -- nobody records, so the breaker knows every admission
    have hcool := cooled_of_free h hzero hpass hfree
    rw [← Outcome.go.inj hgo]
    refine ⟨hpass.after, fun _ => hcool, ?_⟩
    rintro (hpc | hpc) <;> cases hpc
  | hourly hpc hfree =>
    refine quiet_ledger hw h rfl rfl (by rw [hpc]; rfl) rfl fun pc hgo _ => ⟨by rw [hpc]; rfl, ?_⟩
    intro hzero hpass
    have hcount := counted_of_free h hzero hpass hfree
    exact ⟨hpass.after, fun _ => hpass.cooled (by rw [hpc]; exact Pc.noConfusion), fun _ => hcount⟩
  | reserve hpc _ =>
    refine quiet_ledger hw h rfl rfl (by rw [hpc]; rfl) rfl fun pc hgo _ => ⟨by rw [hpc]; rfl, ?_⟩
    intro hzero hpass
    exact ⟨hpass.after, fun _ => hpass.cooled (by rw [hpc]; exact Pc.noConfusion),
      fun _ => hpass.counted (Or.inl hpc)⟩
  | acquire hpc hfree => exact acquire_ledger hw h rfl rfl hpc (hcond hpc hfree)
  | full hpc =>
    refine quiet_ledger hw h rfl rfl (by rw [hpc]; rfl) rfl fun pc hgo hund => ?_
    rw [← Outcome.go.inj hgo] at hund
    cases hund
  | backOut reason hpc =>
    exact quiet_ledger hw h rfl rfl (by rw [hpc]; rfl) rfl fun pc hgo => nomatch hgo
  | recordLast hpc =>
    have howed := h.owed t (hw ▸ List.mem_append_right _ List.mem_cons_self) (by rw [hpc]; rfl)
    refine record_ledger hw h (by rw [hpc]; rfl) rfl (fun _ => ⟨?_, howed.recent⟩) nofun
    -- the last admission is written down, the recent ones are still owed
    have hlast := howed.last
    rw [if_pos hpc] at hlast
    exact hlast
  | recordRecent hpc =>
    have howed := h.owed t (hw ▸ List.mem_append_right _ List.mem_cons_self) (by rw [hpc]; rfl)
    refine record_ledger hw h (by rw [hpc]; rfl) rfl nofun fun _ => ⟨?_, howed.recent⟩
    have hlast := howed.last
    rw [if_neg (by rw [hpc]; exact Pc.noConfusion)] at hlast
    exact hlast
  | running hpc =>
    refine quiet_ledger hw h rfl rfl (by rw [hpc]; rfl) rfl fun pc hgo hund => ?_
    rw [← Outcome.go.inj hgo] at hund
    cases hund
  | release hpc =>
    exact quiet_ledger hw h rfl rfl (by rw [hpc]; rfl) rfl fun pc hgo => nomatch hgo

end

theorem step_ledger (hstep : Step c w l w') (hcond : Unovertaken w l) (h : Ledger c w) :
    Ledger c w' := by
  cases hstep with
  | call p now hclock => exact call_ledger hclock hcond h
  | step before t after hw =>
    refine section_ledger hw h (w.breaker.advance_section c t) (hcond t ?_)
    rw [hw, List.getElem?_append_right (le_refl _), Nat.sub_self]
    rfl

/-- Admitted investigations whose guard is not dropped. -/
def inFlight (w : World) : ℕ := total Pc.admitted w.tasks

/-- Those of one project. -/
def inFlightOf (w : World) (p : String) : ℕ := count Pc.admitted p w.tasks

theorem inFlight_le {w : World} (h : Slots limit w) : w.inFlight ≤ limit := by
  have hle : w.inFlight ≤ total Pc.permitted w.tasks := by
    refine List.countP_mono_left fun t _ ht => ?_
    cases hpc : t.pc <;> rw [hpc] at ht <;> first | rfl | cases ht
  have := h.permits
  omega

theorem inFlightOf_le {w : World} (h : Slots limit w) (p : String) : w.inFlightOf p ≤ 1 := by
  have hle : w.inFlightOf p ≤ count Pc.reserved p w.tasks := by
    refine List.countP_mono_left fun t _ ht => ?_
    rw [Bool.and_eq_true] at ht ⊢
    refine ⟨ht.1, ?_⟩
    have hadm := ht.2
    cases hpc : t.pc <;> rw [hpc] at hadm <;> first | rfl | cases hadm
  have hslot := h.inflight p
  have hone : slot w.breaker.inflight p ≤ 1 := by
    unfold slot
    split <;> omega
  omega

end World

/-- The two caps on what is in flight hold in every interleaving. -/
theorem in_flight_caps {c : AdmitLimits} {limit : ℕ} {ls : List Label} {w : World}
    (hrun : Sys.Run (World.Step c) (World.new limit) ls w) :
    (∀ p, w.inFlightOf p ≤ 1) ∧ w.inFlight ≤ max limit 1 := by
  have hslots : World.Slots (max limit 1) w :=
    hrun.invariant (World.init_slots limit) fun _ _ _ hs hi => World.step_slots hs hi
  exact ⟨World.inFlightOf_le hslots, World.inFlight_le hslots⟩

/-- **Admission caps.**  In every run in which no admission overtakes a call that is then admitted:
at most one investigation of a project and at most the concurrency limit of them are in flight, two
admissions of one project are the cooldown apart, and no hour has more admissions than the cap. -/
theorem admission_caps {c : AdmitLimits} {limit : ℕ} {ls : List Label} {w : World}
    (hrun : Sys.Run (Sys.Restrict (World.Step c) World.Unovertaken) (World.new limit) ls w) :
    (∀ p, w.inFlightOf p ≤ 1) ∧ w.inFlight ≤ max limit 1 ∧
      w.admissions.Pairwise (fun a b => a.1 = b.1 → a.2 + c.cooldown ≤ b.2) ∧
      ∀ start, World.inWindow w.admissions start ≤ c.maxPerHour.toNat := by
  have hledger : World.Ledger c w :=
    hrun.invariant (World.init_ledger limit) fun _ _ _ hs hi => World.step_ledger hs.1 hs.2 hi
  rcases in_flight_caps hrun.of_restrict with ⟨hof, hall⟩
  exact ⟨hof, hall, hledger.apart, hledger.capped⟩

/-! ## Calls that overlap -/

/-- The next section of the `i`-th task. -/
def World.advanceAt (c : AdmitLimits) (w : World) (i : ℕ) : World :=
  match w.tasks.drop i with
  | [] => w
  | t :: after => w.advance c (w.tasks.take i) t after

def World.exec (c : AdmitLimits) (w : World) : Label → World
  | .call p now => w.call p now
  | .step i => w.advanceAt c i

def World.Ready (w : World) : Label → Prop
  | .call _ now => w.clock ≤ now
  | .step i => i < w.tasks.length

instance (w : World) (l : Label) : Decidable (w.Ready l) := by
  cases l <;> unfold World.Ready <;> infer_instance

instance (w : World) (l : Label) : Decidable (w.Unovertaken l) := by
  cases l <;> unfold World.Unovertaken <;> infer_instance

theorem World.exec_step (c : AdmitLimits) (w : World) (l : Label) (h : w.Ready l) :
    World.Step c w l (w.exec c l) := by
  cases l with
  | call p now => exact .call w p now h
  | step i =>
    have hi : i < w.tasks.length := h
    have hsplit : w.tasks = w.tasks.take i ++ w.tasks[i] :: w.tasks.drop (i + 1) := by
      rw [List.getElem_cons_drop, List.take_append_drop]
    have hstep := World.Step.step (c := c) w _ _ _ hsplit
    rw [List.length_take, Nat.min_eq_left hi.le] at hstep
    change World.Step c w (.step i) (w.advanceAt c i)
    unfold World.advanceAt
    rw [List.drop_eq_getElem_cons hi]
    exact hstep

/-- An hourly cap of one and a cooldown of an hour. -/
def AdmitLimits.sample : AdmitLimits := ⟨HOUR, 1⟩

/-- Two calls for one project pass both checks before either is admitted; the first is admitted, its
guard is dropped, and then the second is admitted at the same instant. -/
theorem overlapping_calls_admitted :
    ∃ ls w, Sys.Run (World.Step .sample) (World.new 2) ls w ∧
      ¬ w.admissions.Pairwise
        (fun a b => a.1 = b.1 → a.2 + AdmitLimits.sample.cooldown ≤ b.2) ∧
      ¬ World.inWindow w.admissions 0 ≤ AdmitLimits.sample.maxPerHour.toNat := by
  have hrun := Sys.Run.of_enabled (World.Step .sample) (World.exec .sample) World.Ready
    (World.exec_step .sample) (World.new 2)
    [.call "p" 5, .call "p" 5, .step 0, .step 0, .step 1, .step 1, .step 0, .step 0, .step 0,
      .step 0, .step 0, .step 0, .step 0, .step 0] (by decide +kernel)
  exact ⟨_, _, hrun, by decide +kernel, by decide +kernel⟩

/-- Two projects, one after the other, with the cap at two. -/
theorem admission_caps_sample :
    World.inWindow [("p", 5), ("q", 6)] 0 ≤ 2 := by
  have hstep : ∀ w l, World.Ready w l ∧ World.Unovertaken w l →
      Sys.Restrict (World.Step ⟨HOUR, 2⟩) World.Unovertaken w l (w.exec ⟨HOUR, 2⟩ l) :=
    fun w l h => ⟨World.exec_step _ w l h.1, h.2⟩
  have hrun := Sys.Run.of_enabled _ (World.exec ⟨HOUR, 2⟩) _ hstep (World.new 2)
    [.call "p" 5, .step 0, .step 0, .step 0, .step 0, .step 0, .step 0,
      .call "q" 6, .step 1, .step 1, .step 1, .step 1, .step 1, .step 1] (by decide +kernel)
  exact (admission_caps hrun).2.2.2 0

end LightTrack.Responder
