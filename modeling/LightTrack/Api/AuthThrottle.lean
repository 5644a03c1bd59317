import Mathlib.Algebra.Order.Ring.Nat
import Mathlib.Data.List.AList
import Mathlib.Order.MinMax

/-! # The throttle of failed authentication

A table counts the failures of each source within a fixed window.  Its size is mirrored outside of
the lock, so that a check takes no lock while nobody is failing.  The log tells what happened;
nothing the throttle does reads it.

* `AuthThrottle.Tells` : what every operation keeps, `tells_exec` and `tells_run`,
* `throttle_kept` : the mirror, the bound, the short-circuit and who is refused, in every run,
* `check_retry` : who waits as long as a refusal says is let through.
-/

namespace LightTrack.Auth

/-! ## The throttle -/

def U32_MAX : ℕ := 2 ^ 32 - 1

def U64_MAX : ℕ := 2 ^ 64 - 1

/-- One second, in nanoseconds. -/
def SECOND : ℕ := 1000000000

/-- `AuthThrottle`, with what its lock guards. Instants are nanoseconds of a clock that only goes
forward. -/
structure AuthThrottle where
  maxFailures : UInt32
  window : ℕ
  maxSources : ℕ
  tracked : ℕ
  started : ℕ
  counts : AList fun _ : String => ℕ
  evicted : ℕ

/-- A refusal: its message and its `Retry-After`. -/
structure RateLimited where
  message : String
  retryAfter : ℕ
deriving DecidableEq

namespace AuthThrottle

/-- `AuthThrottle::new`: a window of a millisecond at least, and room for one source. -/
def new (maxFailures : UInt32) (window maxSources now : ℕ) : AuthThrottle where
  maxFailures := maxFailures
  window := max window 1000000
  maxSources := max maxSources 1
  tracked := 0
  started := now
  counts := ∅
  evicted := 0

variable (t : AuthThrottle) (now : ℕ) (source : String)

def enabled : Bool := 0 < t.maxFailures

def windowSecs : ℕ := max (t.window / SECOND) 1

/-- `counts.len()` -/
def size : ℕ := t.counts.keys.length

/-- The window has run out. -/
def Expired : Prop := t.window ≤ now - t.started

instance : Decidable (t.Expired now) := inferInstanceAs (Decidable (_ ≤ _))

def roll : AuthThrottle :=
  if t.Expired now then { t with counts := ∅, evicted := 0, started := now, tracked := 0 } else t

/-- `check`, behind the lock. -/
def lockedCheck : Except RateLimited Unit × AuthThrottle :=
  let f := t.roll now
  let count := (f.counts.lookup source).getD 0
  if count < f.maxFailures.toNat then (.ok (), f)
  else
    let retry := (f.window - (now - f.started)) / SECOND + 1
    (.error
      { message := "too many failed authentication attempts from this address (" ++
          toString count ++ " in the last " ++ toString f.windowSecs ++ "s); retry in " ++
          toString retry ++ "s — this is a credential throttle, not a usage limit"
        retryAfter := retry }, f)

/-- `check`: no lock is taken while nothing is tracked. -/
def check : Except RateLimited Unit × AuthThrottle :=
  if !t.enabled || t.tracked == 0 then (.ok (), t) else t.lockedCheck now source

def success : AuthThrottle :=
  if !t.enabled || t.tracked == 0 then t
  else if (t.counts.lookup source).isSome then
    let counts := t.counts.erase source
    { t with counts, tracked := counts.keys.length }
  else t

/-- `counts.keys().next()`: any key of the table may come first. -/
def victim (slot : ℕ) : Option String := t.counts.keys[slot % t.size]?

def evictOne (slot : ℕ) : AuthThrottle :=
  match t.victim slot with
  | none => t
  | some victim =>
    { t with counts := t.counts.erase victim, evicted := min (t.evicted + 1) U64_MAX }

/-- The source is tracked from its first failure on. -/
def track (slot : ℕ) : AuthThrottle :=
  let f := if t.maxSources ≤ t.size then t.evictOne slot else t
  let counts := f.counts.insert source 1
  { f with counts, tracked := counts.keys.length }

def failure (slot : ℕ) : AuthThrottle :=
  if !t.enabled then t
  else
    let f := t.roll now
    match f.counts.lookup source with
    | some n => { f with counts := f.counts.insert source (min (n + 1) U32_MAX) }
    | none => f.track source slot

end AuthThrottle

/-! ## Runs -/

/-- What happens to the failures of a source. -/
inductive Event
  | failed (source : String)
  | succeeded (source : String)
  | evicted (source : String)
  | rolled
deriving DecidableEq, Repr

/-- The failures of a source since its last success, eviction or roll of the window; the newest
event comes first. -/
def failuresSince (source : String) : List Event → ℕ
  | [] => 0
  | .failed s :: log =>
    if s = source then failuresSince source log + 1 else failuresSince source log
  | .succeeded s :: log => if s = source then 0 else failuresSince source log
  | .evicted s :: log => if s = source then 0 else failuresSince source log
  | .rolled :: _ => 0

/-- Operations, and the clock. The slot of a failure says which key the table yields first. -/
inductive Op
  | advance (d : ℕ)
  | check (source : String)
  | success (source : String)
  | failure (source : String) (slot : ℕ)
deriving DecidableEq, Repr

/-- The throttle, the clock and the log. -/
structure World where
  clock : ℕ
  throttle : AuthThrottle
  log : List Event

namespace World

/-- The event of a roll, if the window has run out. -/
def rollEvents (w : World) : List Event :=
  if w.throttle.Expired w.clock then [.rolled] else []

/-- The event of an eviction, if a new source finds the table full. -/
def evictEvents (f : AuthThrottle) (source : String) (slot : ℕ) : List Event :=
  if (f.counts.lookup source).isNone && decide (f.maxSources ≤ f.size) then
    ((f.victim slot).map Event.evicted).toList
  else []

def exec (w : World) : Op → World
  | .advance d => { w with clock := w.clock + d }
  | .check source =>
    { w with
      throttle := (w.throttle.check w.clock source).2
      log := if !w.throttle.enabled || w.throttle.tracked == 0 then w.log
        else w.rollEvents ++ w.log }
  | .success source =>
    { w with throttle := w.throttle.success source, log := .succeeded source :: w.log }
  | .failure source slot =>
    { w with
      throttle := w.throttle.failure w.clock source slot
      log := if !w.throttle.enabled then .failed source :: w.log
        else .failed source :: (evictEvents (w.throttle.roll w.clock) source slot ++
          (w.rollEvents ++ w.log)) }

end World

/-! ## What the table counts -/

/-- The table counts the failures of every source, up to the largest number it can hold. -/
def Counted (m : AList fun _ : String => ℕ) (log : List Event) : Prop :=
  ∀ source, (m.lookup source).getD 0 = min (failuresSince source log) U32_MAX

section Counted

variable {m : AList fun _ : String => ℕ} {log : List Event} {source : String}

theorem counted_rolled (log : List Event) : Counted ∅ (.rolled :: log) := fun _ => rfl

/-- What makes a source start over is answered by erasing it. -/
theorem Counted.erase (h : Counted m log) {e : Event}
    (he : ∀ s, failuresSince s (e :: log) = if source = s then 0 else failuresSince s log) :
    Counted (m.erase source) (e :: log) := by
  intro s
  rw [he]
  by_cases hs : source = s
  · subst hs
    rw [AList.lookup_erase, if_pos rfl]
    rfl
  · rw [AList.lookup_erase_ne (Ne.symm hs), if_neg hs]
    exact h s

theorem Counted.succeeded_of_untracked (h : Counted m log) (hnone : m.lookup source = none) :
    Counted m (.succeeded source :: log) := by
  intro s
  unfold failuresSince
  split_ifs with hs
  · subst hs
    rw [hnone]
    rfl
  · exact h s

/-- One more failure, counted by whatever the table then says of the source. -/
theorem Counted.insert (h : Counted m log) {n : ℕ}
    (hn : n = min (failuresSince source log + 1) U32_MAX) :
    Counted (m.insert source n) (.failed source :: log) := by
  intro s
  unfold failuresSince
  split_ifs with hs
  · subst hs
    rw [AList.lookup_insert]
    exact hn
  · rw [AList.lookup_insert_ne (Ne.symm hs)]
    exact h s

theorem Counted.bump (h : Counted m log) {n : ℕ} (hlookup : m.lookup source = some n) :
    Counted (m.insert source (min (n + 1) U32_MAX)) (.failed source :: log) := by
  refine h.insert ?_
  have hn := h source
  rw [hlookup, Option.getD_some] at hn
  omega

theorem Counted.track (h : Counted m log) (hlookup : m.lookup source = none) :
    Counted (m.insert source 1) (.failed source :: log) := by
  refine h.insert ?_
  have hn := h source
  have hmax : U32_MAX = 4294967295 := rfl
  rw [hlookup, Option.getD_none] at hn
  omega

end Counted

/-! ## What every operation keeps -/

namespace AuthThrottle

/-- The mirror is the size of the table, there is room for the table, and it counts what the log
tells; a throttle that is off has nothing in it. -/
structure Tells (t : AuthThrottle) (log : List Event) : Prop where
  room : 0 < t.maxSources
  mirror : t.tracked = t.size
  bounded : t.size ≤ t.maxSources
  counted : t.enabled = true → Counted t.counts log
  off : t.enabled = false → t.counts = ∅

variable {t : AuthThrottle} {log : List Event} {now slot : ℕ} {source : String}

theorem tells_new (maxFailures : UInt32) (window maxSources now : ℕ) :
    (new maxFailures window maxSources now).Tells [] := by
  refine ⟨?_, rfl, Nat.zero_le _, fun _ _ => rfl, fun _ => rfl⟩
  exact Nat.lt_of_lt_of_le Nat.zero_lt_one (Nat.le_max_right _ _)

theorem enabled_roll (t : AuthThrottle) (now : ℕ) : (t.roll now).enabled = t.enabled := by
  unfold roll
  split_ifs <;> rfl

theorem Tells.roll (h : t.Tells log) (now : ℕ) :
    (t.roll now).Tells ((if t.Expired now then [.rolled] else []) ++ log) := by
  unfold AuthThrottle.roll
  split_ifs with hexpired
  · exact ⟨h.room, rfl, Nat.zero_le _, fun _ => counted_rolled log, fun _ => rfl⟩
  · exact h

theorem lockedCheck_snd (t : AuthThrottle) (now : ℕ) (source : String) :
    (t.lockedCheck now source).2 = t.roll now := by
  unfold lockedCheck
  dsimp only
  split_ifs <;> rfl

theorem size_erase (hmem : source ∈ t.counts) :
    (t.counts.erase source).keys.length + 1 = t.size := by
  rw [AList.keys_erase, List.length_erase_of_mem (AList.mem_keys.1 hmem)]
  have hpos := List.length_pos_of_mem (AList.mem_keys.1 hmem)
  unfold size
  omega

theorem Tells.success (h : t.Tells log) (source : String) :
    (t.success source).Tells (.succeeded source :: log) := by
  have hlog : t.enabled = true → t.counts.lookup source = none →
      t.Tells (.succeeded source :: log) := by
    intro hon hnone
    exact ⟨h.room, h.mirror, h.bounded,
      fun hon => (h.counted hon).succeeded_of_untracked hnone, h.off⟩
  unfold AuthThrottle.success
  by_cases hon : t.enabled = true
  · by_cases hzero : t.tracked = 0
    · rw [if_pos (by simp [hzero])]
      -- nothing is tracked, so the source is not
      have hkeys : t.counts.keys = [] := List.length_eq_zero_iff.1 (h.mirror.symm.trans hzero)
      refine hlog hon (AList.lookup_eq_none.2 fun hmem => ?_)
      rw [AList.mem_keys, hkeys] at hmem
      exact List.not_mem_nil hmem
    · rw [if_neg (by simp [hon, hzero])]
      split_ifs with hsome
      · have hsize := size_erase (AList.lookup_isSome.1 hsome)
        have hbounded := h.bounded
        refine ⟨h.room, rfl, ?_, ?_, ?_⟩
        · show (t.counts.erase source).keys.length ≤ t.maxSources
          omega
        · exact fun hon => (h.counted hon).erase fun s => rfl
        · exact fun hoff => absurd (hon.symm.trans hoff) (by decide)
      · exact hlog hon (Option.not_isSome_iff_eq_none.1 hsome)
  · rw [Bool.not_eq_true] at hon
    -- a throttle that is off takes no lock and has no table to change
    rw [if_pos (by simp [hon])]
    exact ⟨h.room, h.mirror, h.bounded,
      fun hon' => absurd (hon.symm.trans hon') (by decide), h.off⟩

/-- A table that is full has a key to yield. -/
theorem exists_victim (h : t.Tells log) (hfull : t.maxSources ≤ t.size) (slot : ℕ) :
    ∃ v, t.victim slot = some v ∧ v ∈ t.counts := by
  have hpos : 0 < t.counts.keys.length := Nat.lt_of_lt_of_le h.room hfull
  have hlt : slot % t.counts.keys.length < t.counts.keys.length := Nat.mod_lt _ hpos
  exact ⟨_, List.getElem?_eq_getElem hlt, AList.mem_keys.2 (List.getElem_mem hlt)⟩

/-- A new source is tracked within the bound. -/
theorem Tells.track (h : t.Tells log) (hon : t.enabled = true)
    (hnone : t.counts.lookup source = none) (slot : ℕ) :
    (t.track source slot).Tells (.failed source :: (World.evictEvents t source slot ++ log)) := by
  have hfresh : source ∉ t.counts := AList.lookup_eq_none.1 hnone
  unfold AuthThrottle.track World.evictEvents
  dsimp only
  by_cases hfull : t.maxSources ≤ t.size
  · -- a full table yields a key first, so its size stays what it was
    obtain ⟨v, hv, hmem⟩ := exists_victim h hfull slot
    have hsize := size_erase hmem
    have hbounded := h.bounded
    have hgone : source ∉ t.counts.erase v := fun hin => hfresh (AList.mem_erase.1 hin).2
    have hlength : ((t.counts.erase v).insert source 1).keys.length = t.size := by
      rw [AList.keys_insert, List.length_cons,
        List.erase_of_not_mem fun hin => hgone (AList.mem_keys.2 hin)]
      exact hsize
    rw [if_pos hfull, hnone, if_pos (by simp [hfull]), hv]
    unfold evictOne
    rw [hv]
    refine ⟨h.room, rfl, ?_, ?_, ?_⟩
    · show ((t.counts.erase v).insert source 1).keys.length ≤ t.maxSources
      omega
    · intro hon'
      exact ((h.counted hon').erase fun s => rfl).track (AList.lookup_eq_none.2 hgone)
    · exact fun hoff => absurd (hon.symm.trans hoff) (by decide)
  · have hlength : (t.counts.insert source 1).keys.length = t.size + 1 := by
      rw [AList.keys_insert, List.length_cons,
        List.erase_of_not_mem fun hin => hfresh (AList.mem_keys.2 hin)]
      rfl
    rw [if_neg hfull, if_neg (by simp [hfull])]
    refine ⟨h.room, rfl, ?_, ?_, ?_⟩
    · show (t.counts.insert source 1).keys.length ≤ t.maxSources
      omega
    · exact fun hon' => (h.counted hon').track hnone
    · exact fun hoff => absurd (hon.symm.trans hoff) (by decide)

/-- A source that is tracked already is counted once more. -/
theorem Tells.bump (h : t.Tells log) (hon : t.enabled = true) {n : ℕ}
    (hlookup : t.counts.lookup source = some n) :
    ({ t with counts := t.counts.insert source (min (n + 1) U32_MAX) } : AuthThrottle).Tells
      (.failed source :: log) := by
  have hmem : source ∈ t.counts := AList.lookup_isSome.1 (by rw [hlookup]; rfl)
  have hlength : (t.counts.insert source (min (n + 1) U32_MAX)).keys.length = t.size := by
    rw [AList.keys_insert, List.length_cons, ← AList.keys_erase]
    exact size_erase hmem
  refine ⟨h.room, h.mirror.trans hlength.symm, ?_, ?_, ?_⟩
  · exact hlength.trans_le h.bounded
  · exact fun hon' => (h.counted hon').bump hlookup
  · exact fun hoff => absurd (hon.symm.trans hoff) (by decide)

end AuthThrottle

namespace World

variable {w : World}

theorem tells_exec (h : w.throttle.Tells w.log) (op : Op) :
    (w.exec op).throttle.Tells (w.exec op).log := by
  cases op with
  | advance d => exact h
  | check source =>
    unfold exec AuthThrottle.check rollEvents
    dsimp only
    split_ifs with hfree
    · exact h
    all_goals
      rw [AuthThrottle.lockedCheck_snd]
      -- the lock only rolls: a check counts nothing
      have hroll := h.roll w.clock
      simpa [*] using hroll
  | success source => exact h.success source
  | failure source slot =>
    unfold exec AuthThrottle.failure
    by_cases hon : w.throttle.enabled = true
    · have hroll := h.roll w.clock
      have hon' := (AuthThrottle.enabled_roll w.throttle w.clock).trans hon
      simp only [hon, Bool.not_true, Bool.false_eq_true, if_false]
      cases hlookup : (w.throttle.roll w.clock).counts.lookup source with
      | none => exact hroll.track hon' hlookup slot
      | some n =>
        -- a source that is tracked already evicts nobody
        have hquiet : evictEvents (w.throttle.roll w.clock) source slot = [] := by
          unfold evictEvents
          rw [hlookup]
          rfl
        rw [hquiet]
        exact hroll.bump hon' hlookup
    · rw [Bool.not_eq_true] at hon
      simp only [hon, Bool.not_false, if_true]
      exact ⟨h.room, h.mirror, h.bounded,
        fun hon' => absurd (hon.symm.trans hon') (by decide), h.off⟩

/-- The world of a throttle that was just built. -/
def start (maxFailures : UInt32) (window maxSources now : ℕ) : World :=
  ⟨now, .new maxFailures window maxSources now, []⟩

theorem tells_run (h : w.throttle.Tells w.log) (ops : List Op) :
    (ops.foldl exec w).throttle.Tells (ops.foldl exec w).log := by
  induction ops generalizing w with
  | nil => exact h
  | cons op ops ih => exact ih (tells_exec h op)

end World

/-! ## What a check answers -/

namespace AuthThrottle

variable {t : AuthThrottle} {log : List Event} {now : ℕ} {source : String}

theorem config_roll (t : AuthThrottle) (now : ℕ) :
    (t.roll now).maxFailures = t.maxFailures ∧ (t.roll now).maxSources = t.maxSources := by
  unfold roll
  split_ifs <;> exact ⟨rfl, rfl⟩

/-- Behind the lock: let through below the limit, else refused until the window has run out. -/
theorem lockedCheck_cases (t : AuthThrottle) (now : ℕ) (source : String) :
    (((t.roll now).counts.lookup source).getD 0 < t.maxFailures.toNat ∧
      (t.lockedCheck now source).1 = .ok ()) ∨
    (t.maxFailures.toNat ≤ ((t.roll now).counts.lookup source).getD 0 ∧
      ∃ e, (t.lockedCheck now source).1 = .error e ∧
        e.retryAfter = ((t.roll now).window - (now - (t.roll now).started)) / SECOND + 1) := by
  unfold lockedCheck
  dsimp only
  rw [(config_roll t now).1]
  by_cases hlt : ((t.roll now).counts.lookup source).getD 0 < t.maxFailures.toNat
  · rw [if_pos hlt]
    exact .inl ⟨hlt, rfl⟩
  · rw [if_neg hlt]
    exact .inr ⟨Nat.le_of_not_lt hlt, _, rfl, rfl⟩

/-- Behind the lock a source is refused for the failures since its last roll. -/
theorem lockedCheck_refuses_iff (h : t.Tells log) (hon : t.enabled = true) :
    (∃ e, (t.lockedCheck now source).1 = .error e) ↔
      t.maxFailures.toNat ≤
        failuresSince source ((if t.Expired now then [.rolled] else []) ++ log) := by
  have hcount := (h.roll now).counted ((enabled_roll t now).trans hon) source
  have hmax : t.maxFailures.toNat ≤ U32_MAX := Nat.le_pred_of_lt t.maxFailures.toNat_lt
  rcases lockedCheck_cases t now source with ⟨hlt, hok⟩ | ⟨hle, e, he, -⟩
  · rw [hok]
    refine iff_of_false (fun ⟨e, he⟩ => by cases he) ?_
    omega
  · refine iff_of_true ⟨e, he⟩ ?_
    omega

/-- **The short-circuit answers as the lock would.** -/
theorem check_eq_lockedCheck (h : t.Tells log) (hon : t.enabled = true) :
    (t.check now source).1 = (t.lockedCheck now source).1 := by
  unfold check
  by_cases hzero : t.tracked = 0
  · -- an empty table refuses nobody, rolled or not
    have hkeys : t.counts.keys = [] := List.length_eq_zero_iff.1 (h.mirror.symm.trans hzero)
    have hnone : (t.roll now).counts.lookup source = none := by
      refine AList.lookup_eq_none.2 fun hmem => ?_
      unfold roll at hmem
      split_ifs at hmem
      · exact AList.notMem_empty source hmem
      · rw [AList.mem_keys, hkeys] at hmem
        exact List.not_mem_nil hmem
    have hpos : 0 < t.maxFailures.toNat := UInt32.lt_iff_toNat_lt.1 (of_decide_eq_true hon)
    rw [if_pos (by simp [hzero])]
    rcases lockedCheck_cases t now source with ⟨-, hok⟩ | ⟨hle, -⟩
    · exact hok.symm
    · rw [hnone, Option.getD_none] at hle
      omega
  · rw [if_neg (by simp [hon, hzero])]

/-- A refusal comes from behind the lock, so the limit is not 0. -/
theorem check_eq_of_error {e : RateLimited} (h : (t.check now source).1 = .error e) :
    t.check now source = t.lockedCheck now source ∧ 0 < t.maxFailures.toNat := by
  have hfree : ¬ (!t.enabled || t.tracked == 0) = true := by
    intro hfree
    unfold check at h
    rw [if_pos hfree] at h
    cases h
  refine ⟨if_neg hfree, ?_⟩
  by_contra hzero
  refine hfree ?_
  have hoff : t.enabled = false :=
    decide_eq_false fun hlt => hzero (UInt32.lt_iff_toNat_lt.1 hlt)
  rw [hoff]
  rfl

/-- A table whose window has run out is dropped before it is read. -/
theorem lookup_of_expired (h : t.Expired now) :
    ((t.roll now).counts.lookup source).getD 0 = 0 := by
  rw [roll, if_pos h]
  rfl

/-- **A refusal is a schedule**: whoever waits as long as it says is let through. -/
theorem check_retry (hstarted : t.started ≤ now) {e : RateLimited}
    (h : (t.check now source).1 = .error e) :
    ((t.check now source).2.check (now + e.retryAfter * SECOND) source).1 = .ok () := by
  obtain ⟨hcheck, hpos⟩ := check_eq_of_error h
  rw [hcheck] at h ⊢
  rw [lockedCheck_snd]
  have hstarted' : (t.roll now).started ≤ now := by
    unfold roll
    split_ifs
    · exact Nat.le_refl now
    · exact hstarted
  have hretry : e.retryAfter =
      ((t.roll now).window - (now - (t.roll now).started)) / SECOND + 1 := by
    rcases lockedCheck_cases t now source with ⟨-, hok⟩ | ⟨-, e', he', hretry⟩
    · rw [hok] at h
      cases h
    · rw [he'] at h
      rw [← Except.error.inj h]
      exact hretry
  -- by then the window has run out
  have hexpired : (t.roll now).Expired (now + e.retryAfter * SECOND) := by
    have hlt := Nat.lt_div_mul_add
      (a := (t.roll now).window - (now - (t.roll now).started)) (show 0 < SECOND by decide)
    unfold Expired
    rw [hretry, Nat.add_mul, Nat.one_mul]
    omega
  have hnone :
      (((t.roll now).roll (now + e.retryAfter * SECOND)).counts.lookup source).getD 0 = 0 :=
    lookup_of_expired hexpired
  unfold check
  split_ifs
  · rfl
  · rcases lockedCheck_cases (t.roll now) (now + e.retryAfter * SECOND) source with
      ⟨-, hok⟩ | ⟨hle, -⟩
    · exact hok
    · rw [hnone, (config_roll t now).1] at hle
      omega

end AuthThrottle

/-! ## Every run -/

namespace World

variable {w : World}

theorem config_exec (w : World) (op : Op) :
    (w.exec op).throttle.maxFailures = w.throttle.maxFailures ∧
      (w.exec op).throttle.maxSources = w.throttle.maxSources := by
  have hroll := AuthThrottle.config_roll w.throttle w.clock
  cases op with
  | advance d => exact ⟨rfl, rfl⟩
  | check source =>
    unfold exec AuthThrottle.check
    dsimp only
    split_ifs
    · exact ⟨rfl, rfl⟩
    · rw [AuthThrottle.lockedCheck_snd]
      exact hroll
  | success source =>
    unfold exec AuthThrottle.success
    dsimp only
    split_ifs <;> exact ⟨rfl, rfl⟩
  | failure source slot =>
    unfold exec AuthThrottle.failure
    dsimp only
    split_ifs
    · exact ⟨rfl, rfl⟩
    · cases (w.throttle.roll w.clock).counts.lookup source with
      | some n => exact hroll
      | none =>
        unfold AuthThrottle.track AuthThrottle.evictOne
        dsimp only
        split_ifs
        · cases (w.throttle.roll w.clock).victim slot <;> exact hroll
        · exact hroll

theorem config_run (w : World) (ops : List Op) :
    (ops.foldl exec w).throttle.maxFailures = w.throttle.maxFailures ∧
      (ops.foldl exec w).throttle.maxSources = w.throttle.maxSources := by
  induction ops generalizing w with
  | nil => exact ⟨rfl, rfl⟩
  | cons op ops ih =>
    have hexec := config_exec w op
    have hrest := ih (w.exec op)
    exact ⟨hrest.1.trans hexec.1, hrest.2.trans hexec.2⟩

/-- What the bookkeeping promises of a throttle with a limit and room for some sources: of one that
is on, and of one that a limit of 0 has turned off. -/
structure Throttles (w : World) (maxFailures : UInt32) (maxSources : ℕ) : Prop where
  mirror : w.throttle.tracked = w.throttle.size
  bounded : w.throttle.size ≤ maxSources
  lockFree : 0 < maxFailures → ∀ source,
    (w.throttle.check w.clock source).1 = (w.throttle.lockedCheck w.clock source).1
  refuses : 0 < maxFailures → ∀ source,
    (∃ e, (w.throttle.check w.clock source).1 = .error e) ↔
      maxFailures.toNat ≤ failuresSince source (w.rollEvents ++ w.log)
  off : maxFailures = 0 → w.throttle.size = 0 ∧
    ∀ source, (w.throttle.check w.clock source).1 = .ok ()

end World

/-- **The bookkeeping of the throttle** in every run of failures, successes, checks and advances of
the clock. -/
theorem throttle_kept (maxFailures : UInt32) (window maxSources now : ℕ) (ops : List Op) :
    (ops.foldl World.exec (.start maxFailures window maxSources now)).Throttles maxFailures
      (max maxSources 1) := by
  have htells := World.tells_run (w := .start maxFailures window maxSources now)
    (AuthThrottle.tells_new maxFailures window maxSources now) ops
  have hconfig := World.config_run (.start maxFailures window maxSources now) ops
  -- from here on the run matters by its invariant only
  generalize ops.foldl World.exec (.start maxFailures window maxSources now) = w at htells hconfig
  obtain ⟨hlimit, hroom⟩ := hconfig
  have hmax : w.throttle.maxFailures = maxFailures := hlimit
  have hon : 0 < maxFailures → w.throttle.enabled = true := fun h =>
    decide_eq_true (hmax.symm ▸ h)
  refine ⟨htells.mirror, htells.bounded.trans_eq hroom, ?_, ?_, ?_⟩
  · intro hpos source
    exact AuthThrottle.check_eq_lockedCheck htells (hon hpos)
  · intro hpos source
    rw [AuthThrottle.check_eq_lockedCheck htells (hon hpos),
      AuthThrottle.lockedCheck_refuses_iff htells (hon hpos), hmax]
    rfl
  · intro hzero
    have hoff : w.throttle.enabled = false := by
      unfold AuthThrottle.enabled
      rw [hmax, hzero]
      rfl
    refine ⟨?_, fun source => ?_⟩
    · unfold AuthThrottle.size
      rw [htells.off hoff]
      rfl
    · unfold AuthThrottle.check
      rw [hoff]
      rfl

/-- With a limit of 0 a source that fails is not refused, whatever its failures. -/
theorem limit_zero_refuses_nobody :
    let w := [Op.failure "1.2.3.4" 0].foldl World.exec (.start 0 60000000000 4096 0)
    (0 : UInt32).toNat ≤ failuresSince "1.2.3.4" (w.rollEvents ++ w.log) ∧
      (w.throttle.check w.clock "1.2.3.4").1 = .ok () := by
  decide +kernel

end LightTrack.Auth
