import LightTrack.Lib.Run
import Mathlib.Data.Finset.Card
import Mathlib.Data.Finset.Basic
import Mathlib.Data.List.Count
import Mathlib.Tactic.Basic

/-! # Webhook deliveries seen so far

A bounded set of delivery keys with first-in first-out eviction.  A key is in flight from `begin`
until its claim commits; a claim that is dropped uncommitted forgets its key.

* `Inner.Consistent` : what the three collections keep of each other,
* `World.Inv` : how the claims that are alive and the keys in flight correspond, as long as no key
  in flight was evicted,
* `acknowledged_when_durable` : what holds in every state any number of handlers can reach.
-/

namespace LightTrack.Idempotency

/-! ## The seen-set -/

/-- The three collections under the lock. -/
structure Inner where
  set : Finset String := ∅
  inFlight : Finset String := ∅
  fifo : List String := []
deriving DecidableEq

structure SeenWebhooks where
  capacity : ℕ
  inner : Inner
deriving DecidableEq

/-- What `begin` found for a delivery key; `new` hands out a claim of it. -/
inductive Begin
  | new
  | done
  | inFlight
deriving DecidableEq, Repr

namespace Inner

/-- `while g.fifo.len() > self.capacity`, on the keys that are queued. -/
def evict (capacity : ℕ) (set inFlight : Finset String) : List String → Inner
  | [] => ⟨set, inFlight, []⟩
  | old :: rest =>
    if (old :: rest).length > capacity then evict capacity (set.erase old) (inFlight.erase old) rest
    else ⟨set, inFlight, old :: rest⟩

/-- The set is what is queued, nothing is queued twice, and only seen keys are in flight. -/
structure Consistent (g : Inner) : Prop where
  set_eq : ∀ k, k ∈ g.set ↔ k ∈ g.fifo
  nodup : g.fifo.Nodup
  subset : g.inFlight ⊆ g.set

/-- What eviction leaves: the newest keys, and of each collection what is left queued. -/
theorem evict_spec (capacity : ℕ) {set inFlight : Finset String} {fifo : List String}
    (h : Consistent ⟨set, inFlight, fifo⟩) :
    let g := evict capacity set inFlight fifo
    g.fifo = fifo.drop (fifo.length - capacity) ∧ g.fifo.length ≤ capacity ∧ g.Consistent ∧
      ∀ k, k ∈ g.inFlight ↔ k ∈ inFlight ∧ k ∈ g.fifo := by
  induction fifo generalizing set inFlight with
  | nil =>
    intro g
    refine ⟨by simp [g, evict], by simp [g, evict], h, fun k => ?_⟩
    constructor
    · intro hk
      exact ⟨hk, (h.set_eq k).1 (h.subset hk)⟩
    · exact fun hk => hk.1
  | cons old rest ih =>
    rcases List.nodup_cons.1 h.nodup with ⟨hold, hrest⟩
    unfold evict
    split
    · -- the queue is too long: its oldest key leaves all three collections
      rename_i hlong
      have hcons : Consistent ⟨set.erase old, inFlight.erase old, rest⟩ := by
        refine ⟨fun k => ?_, hrest, Finset.erase_subset_erase _ h.subset⟩
        have hk := h.set_eq k
        simp only [List.mem_cons] at hk
        rw [Finset.mem_erase, hk]
        constructor
        · rintro ⟨hne, rfl | hk⟩
          · exact absurd rfl hne
          · exact hk
        · intro hk
          exact ⟨fun he => hold (he ▸ hk), Or.inr hk⟩
      intro g
      rcases ih hcons with ⟨hfifo, hlen, hg, hmem⟩
      refine ⟨?_, hlen, hg, fun k => ?_⟩
      · rw [hfifo]
        simp only [List.length_cons] at hlong ⊢
        rw [show rest.length + 1 - capacity = rest.length - capacity + 1 by omega,
          List.drop_succ_cons]
      · rw [hmem k, Finset.mem_erase]
        constructor
        · rintro ⟨⟨-, hk⟩, hq⟩
          exact ⟨hk, hq⟩
        · rintro ⟨hk, hq⟩
          refine ⟨⟨?_, hk⟩, hq⟩
          rintro rfl
          rw [hfifo] at hq
          exact hold (List.mem_of_mem_drop hq)
    · rename_i hshort
      intro g
      have hle : (old :: rest).length ≤ capacity := Nat.le_of_not_lt hshort
      refine ⟨by rw [Nat.sub_eq_zero_of_le hle, List.drop_zero], hle, h, fun k => ?_⟩
      constructor
      · intro hk
        exact ⟨hk, (h.set_eq k).1 (h.subset hk)⟩
      · exact fun hk => hk.1

end Inner

namespace SeenWebhooks

/-- At least one key is remembered. -/
def new (capacity : ℕ) : SeenWebhooks := ⟨max capacity 1, {}⟩

/-- The insertion of a key that was not seen, with the eviction it causes. -/
def insertNew (s : SeenWebhooks) (key : String) : SeenWebhooks :=
  ⟨s.capacity, Inner.evict s.capacity (insert key s.inner.set) (insert key s.inner.inFlight)
    (s.inner.fifo ++ [key])⟩

/-- `begin` under its lock. -/
def begin (s : SeenWebhooks) (key : String) : SeenWebhooks × Begin :=
  if key ∈ s.inner.set then
    if key ∈ s.inner.inFlight then (s, .inFlight) else (s, .done)
  else (s.insertNew key, .new)

/-- `Claim::commit` under its lock. -/
def commit (s : SeenWebhooks) (key : String) : SeenWebhooks :=
  { s with inner := { s.inner with inFlight := s.inner.inFlight.erase key } }

/-- `forget`, which the drop of an uncommitted claim calls. -/
def forget (s : SeenWebhooks) (key : String) : SeenWebhooks :=
  { s with inner :=
    { set := s.inner.set.erase key
      inFlight := s.inner.inFlight.erase key
      fifo := if key ∈ s.inner.set then s.inner.fifo.filter (fun k => k ≠ key)
        else s.inner.fifo } }

/-! ### What one call does to the collections -/

variable {s : SeenWebhooks} {key : String}

theorem begin_cases (s : SeenWebhooks) (key : String) :
    (key ∈ s.inner.inFlight ∧ key ∈ s.inner.set ∧ s.begin key = (s, .inFlight)) ∨
    (key ∉ s.inner.inFlight ∧ key ∈ s.inner.set ∧ s.begin key = (s, .done)) ∨
    (key ∉ s.inner.set ∧ s.begin key = (s.insertNew key, .new)) := by
  unfold SeenWebhooks.begin
  by_cases hset : key ∈ s.inner.set
  · by_cases hfly : key ∈ s.inner.inFlight
    · exact Or.inl ⟨hfly, hset, by simp [hset, hfly]⟩
    · exact Or.inr (Or.inl ⟨hfly, hset, by simp [hset, hfly]⟩)
  · exact Or.inr (Or.inr ⟨hset, by simp [hset]⟩)

theorem consistent_append (h : s.inner.Consistent) (hkey : key ∉ s.inner.set) :
    Inner.Consistent ⟨insert key s.inner.set, insert key s.inner.inFlight,
      s.inner.fifo ++ [key]⟩ := by
  refine ⟨fun k => ?_, ?_, Finset.insert_subset_insert _ h.subset⟩
  · rw [Finset.mem_insert, h.set_eq k, List.mem_append, List.mem_singleton, or_comm]
  · rw [List.nodup_append]
    refine ⟨h.nodup, List.nodup_singleton _, fun a ha b hb hab => ?_⟩
    rw [List.mem_singleton.1 hb] at hab
    exact hkey ((h.set_eq key).2 (hab ▸ ha))

/-- A new key is queued last, so with room for one key it stays, and it is in flight. -/
theorem insertNew_spec (h : s.inner.Consistent) (hcap : 1 ≤ s.capacity)
    (hkey : key ∉ s.inner.set) :
    (s.insertNew key).inner.Consistent ∧ (s.insertNew key).inner.fifo.length ≤ s.capacity ∧
      (∀ k, k ∈ (s.insertNew key).inner.set → k = key ∨ k ∈ s.inner.set) ∧
      key ∈ (s.insertNew key).inner.inFlight ∧
      ∀ k, k ≠ key → (k ∈ (s.insertNew key).inner.inFlight ↔
        k ∈ s.inner.inFlight ∧ k ∈ (s.insertNew key).inner.set) := by
  rcases Inner.evict_spec s.capacity (consistent_append h hkey) with
    ⟨hfifo, hlen, hcons, hmem⟩
  have hlast : key ∈ (s.insertNew key).inner.fifo := by
    unfold insertNew
    rw [hfifo, List.drop_append_of_le_length]
    · exact List.mem_append_right _ (List.mem_singleton_self key)
    · rw [List.length_append, List.length_singleton]
      omega
  refine ⟨hcons, hlen, fun k hk => ?_, (hmem key).2 ⟨Finset.mem_insert_self _ _, hlast⟩,
    fun k hne => ?_⟩
  · have hq := (hcons.set_eq k).1 hk
    rw [hfifo] at hq
    rcases List.mem_append.1 (List.mem_of_mem_drop hq) with hold | hnew
    · exact Or.inr ((h.set_eq k).2 hold)
    · exact Or.inl (List.mem_singleton.1 hnew)
  · have hk := hmem k
    rw [Finset.mem_insert, ← hcons.set_eq k] at hk
    unfold insertNew
    rw [hk]
    constructor
    · rintro ⟨he | hfly, hset⟩
      · exact absurd he hne
      · exact ⟨hfly, hset⟩
    · rintro ⟨hfly, hset⟩
      exact ⟨Or.inr hfly, hset⟩

theorem commit_consistent (h : s.inner.Consistent) : (s.commit key).inner.Consistent :=
  ⟨h.set_eq, h.nodup, (Finset.erase_subset _ _).trans h.subset⟩

theorem forget_consistent (h : s.inner.Consistent) : (s.forget key).inner.Consistent := by
  have hfifo : (s.forget key).inner.fifo = s.inner.fifo.filter (fun k => k ≠ key) := by
    unfold forget
    by_cases hkey : key ∈ s.inner.set
    · simp [hkey]
    · have hq : key ∉ s.inner.fifo := fun hq => hkey ((h.set_eq key).2 hq)
      simp only [hkey, if_false]
      refine (List.filter_eq_self.2 fun k hk => ?_).symm
      exact decide_eq_true fun he => hq (he ▸ hk)
  refine ⟨fun k => ?_, ?_, Finset.erase_subset_erase _ h.subset⟩
  · rw [hfifo, List.mem_filter, ← h.set_eq k]
    simp [forget, and_comm]
  · rw [hfifo]
    exact h.nodup.filter _

end SeenWebhooks

/-! ## Handlers in any order -/

/-- The seen-set with the keys of the claims that are alive, and of the keys an eviction took out
of flight so far. -/
structure World where
  seen : SeenWebhooks
  claims : List String
  evicted : Finset String

/-- The calls under the lock; a claim alive is committed or dropped. -/
inductive Call
  | begin (key : String)
  | commit (key : String)
  | drop (key : String)
deriving DecidableEq

namespace World

def new (capacity : ℕ) : World := ⟨SeenWebhooks.new capacity, [], ∅⟩

/-- A handler begins on a delivery, and holds the claim if it is new. -/
def began (w : World) (key : String) : World :=
  let found := w.seen.begin key
  { seen := found.1
    claims := if found.2 = .new then key :: w.claims else w.claims
    evicted := w.evicted ∪ (w.seen.inner.inFlight \ found.1.inner.inFlight) }

/-- One call under the lock. -/
inductive Step : World → Call → World → Prop
  | begin (w : World) (key : String) : Step w (.begin key) (w.began key)
  | commit (w : World) (key : String) (h : key ∈ w.claims) :
      Step w (.commit key) { w with seen := w.seen.commit key, claims := w.claims.erase key }
  | drop (w : World) (key : String) (h : key ∈ w.claims) :
      Step w (.drop key) { w with seen := w.seen.forget key, claims := w.claims.erase key }

/-- A key that no eviction took out of flight has its one claim alive exactly while it is in
flight; a key seen and not in flight was committed. -/
structure Inv (capacity : ℕ) (ls : List Call) (w : World) : Prop where
  capacity_eq : w.seen.capacity = max capacity 1
  consistent : w.seen.inner.Consistent
  bounded : w.seen.inner.fifo.length ≤ max capacity 1
  durable : ∀ k ∈ w.seen.inner.set, k ∉ w.seen.inner.inFlight → Call.commit k ∈ ls
  claimed : ∀ k ∉ w.evicted, w.claims.count k = if k ∈ w.seen.inner.inFlight then 1 else 0

theorem init_inv (capacity : ℕ) : Inv capacity [] (new capacity) where
  capacity_eq := rfl
  consistent := ⟨fun k => by simp [new, SeenWebhooks.new], List.nodup_nil, Finset.Subset.refl _⟩
  bounded := Nat.zero_le _
  durable := fun k hk => absurd hk (Finset.notMem_empty k)
  claimed := fun k _ => by simp [new, SeenWebhooks.new]

variable {capacity : ℕ} {ls : List Call} {w w' : World} {key : String}

theorem began_inv (h : Inv capacity ls w) : Inv capacity (ls ++ [.begin key]) (w.began key) := by
  have hkeep : ∀ k, Call.commit k ∈ ls → Call.commit k ∈ ls ++ [.begin key] :=
    fun k => List.mem_append_left _
  rcases w.seen.begin_cases key with ⟨hfly, hset, hbegin⟩ | ⟨hfly, hset, hbegin⟩ | ⟨hset, hbegin⟩
  · -- another attempt is in flight: nothing changes
    have hsame : w.began key = w := by simp [began, hbegin]
    rw [hsame]
    exact { h with durable := fun k hk hf => hkeep k (h.durable k hk hf) }
  · -- the delivery is done: nothing changes
    have hsame : w.began key = w := by simp [began, hbegin]
    rw [hsame]
    exact { h with durable := fun k hk hf => hkeep k (h.durable k hk hf) }
  · -- a new key: it is queued in flight, and what it evicts of the keys in flight is recorded
    have hcap : 1 ≤ w.seen.capacity := h.capacity_eq ▸ Nat.le_max_right _ _
    rcases SeenWebhooks.insertNew_spec h.consistent hcap hset with
      ⟨hcons, hlen, hsub, hnew, hmem⟩
    have hseen : (w.began key).seen = w.seen.insertNew key := by simp [began, hbegin]
    have hclaims : (w.began key).claims = key :: w.claims := by simp [began, hbegin]
    have hevicted : (w.began key).evicted =
        w.evicted ∪ (w.seen.inner.inFlight \ (w.seen.insertNew key).inner.inFlight) := by
      simp [began, hbegin]
    have hnot : key ∉ w.seen.inner.inFlight := fun hf => hset (h.consistent.subset hf)
    constructor
    · rw [hseen]
      exact h.capacity_eq
    · rw [hseen]
      exact hcons
    · rw [hseen, ← h.capacity_eq]
      exact hlen
    · intro k hk hf
      rw [hseen] at hk hf
      have hne : k ≠ key := fun he => hf (he ▸ hnew)
      have hold : k ∈ w.seen.inner.set := (hsub k hk).resolve_left hne
      exact hkeep k (h.durable k hold fun hfly => hf ((hmem k hne).2 ⟨hfly, hk⟩))
    · intro k hk
      rw [hevicted, Finset.mem_union, not_or] at hk
      have hcount := h.claimed k hk.1
      rw [hclaims, hseen]
      by_cases hne : k = key
      · rw [hne] at hcount ⊢
        rw [List.count_cons_self, hcount, if_neg hnot, if_pos hnew]
      · rw [List.count_cons_of_ne (Ne.symm hne), hcount]
        have hiff : k ∈ w.seen.inner.inFlight ↔ k ∈ (w.seen.insertNew key).inner.inFlight := by
          constructor
          · intro hfly
            by_contra hgone
            exact hk.2 (Finset.mem_sdiff.2 ⟨hfly, hgone⟩)
          · exact fun hfly => ((hmem k hne).1 hfly).1
        simp only [hiff]

/-- When a claim ends, its key has no other claim alive unless an eviction took it out of flight. -/
theorem ended_claimed (h : Inv capacity ls w) (hkey : key ∈ w.claims) :
    ∀ k ∉ w.evicted,
      (w.claims.erase key).count k = if k ∈ w.seen.inner.inFlight.erase key then 1 else 0 := by
  intro k hk
  have hcount := h.claimed k hk
  by_cases he : k = key
  · have hpos : 0 < w.claims.count k := by
      rw [he]
      exact List.count_pos_iff.2 hkey
    have hone : w.claims.count k ≤ 1 := by
      rw [hcount]
      split <;> omega
    have hnot : k ∉ w.seen.inner.inFlight.erase key := by simp [he]
    rw [if_neg hnot, he, List.count_erase_self, ← he]
    omega
  · rw [List.count_erase_of_ne he, hcount]
    simp [he]

theorem step_inv {l : Call} (hstep : Step w l w') (h : Inv capacity ls w) :
    Inv capacity (ls ++ [l]) w' := by
  cases hstep with
  | «begin» key => exact began_inv h
  | commit key hkey =>
    -- the key leaves the keys in flight, and its label is what makes it durable
    refine ⟨h.capacity_eq, SeenWebhooks.commit_consistent h.consistent, h.bounded, ?_,
      ended_claimed h hkey⟩
    intro k hk hf
    by_cases he : k = key
    · rw [he]
      exact List.mem_append_right _ (List.mem_singleton_self _)
    · refine List.mem_append_left _ (h.durable k hk fun hfly => hf ?_)
      exact Finset.mem_erase.2 ⟨he, hfly⟩
  | drop key hkey =>
    -- the key leaves all three collections
    refine ⟨h.capacity_eq, SeenWebhooks.forget_consistent h.consistent, ?_, ?_,
      ended_claimed h hkey⟩
    · refine le_trans ?_ h.bounded
      unfold SeenWebhooks.forget
      split
      · exact List.length_filter_le _ _
      · exact le_refl _
    · intro k hk hf
      rcases Finset.mem_erase.1 hk with ⟨he, hset⟩
      refine List.mem_append_left _ (h.durable k hset fun hfly => hf ?_)
      exact Finset.mem_erase.2 ⟨he, hfly⟩

end World

/-- **Deliveries are acknowledged when durable**: in every reachable state a key reads as done only
after a claim of it was committed, no key has two uncommitted claims unless an eviction took it out
of flight, and the three collections agree within the capacity. -/
theorem acknowledged_when_durable {capacity : ℕ} {ls : List Call} {w : World}
    (hrun : Sys.Run World.Step (World.new capacity) ls w) :
    (∀ key, (w.seen.begin key).2 = .done → Call.commit key ∈ ls) ∧
    (∀ key ∉ w.evicted, w.claims.count key ≤ 1) ∧
    (∀ key, key ∈ w.seen.inner.set ↔ key ∈ w.seen.inner.fifo) ∧
    w.seen.inner.fifo.Nodup ∧ w.seen.inner.inFlight ⊆ w.seen.inner.set ∧
    w.seen.inner.set.card ≤ max capacity 1 := by
  have h : World.Inv capacity ls w :=
    hrun.trace_invariant (World.init_inv capacity) (fun _ _ _ _ hs hi => World.step_inv hs hi)
  refine ⟨fun key hdone => ?_, fun key hkey => ?_, h.consistent.set_eq, h.consistent.nodup,
    h.consistent.subset, ?_⟩
  · rcases w.seen.begin_cases key with ⟨_, _, hbegin⟩ | ⟨hfly, hset, _⟩ | ⟨_, hbegin⟩
    · rw [hbegin] at hdone
      simp at hdone
    · exact h.durable key hset hfly
    · rw [hbegin] at hdone
      simp at hdone
  · rw [h.claimed key hkey]
    split <;> omega
  · have hset : w.seen.inner.set = w.seen.inner.fifo.toFinset := by
      ext k
      rw [h.consistent.set_eq k, List.mem_toFinset]
    rw [hset, List.toFinset_card_of_nodup h.consistent.nodup]
    exact h.bounded

/-- A delivery that was persisted and repeated. -/
theorem acknowledged_when_durable_sample :
    Call.commit "wh_1" ∈ [Call.begin "wh_1", Call.commit "wh_1"] := by
  have hrun : Sys.Run World.Step (World.new 2) [.begin "wh_1", .commit "wh_1"] _ :=
    (Sys.Run.nil.snoc (.begin _ "wh_1")).snoc (.commit _ "wh_1" (by decide))
  exact (acknowledged_when_durable hrun).1 "wh_1" (by decide)

/-- With room for one key, a second delivery evicts the first while it is in flight, and the retry
of the first is new again; and a cache built with no room keeps one key. -/
theorem evicted_in_flight_claimed_twice :
    (∃ ls w, Sys.Run World.Step (World.new 1) ls w ∧ w.claims.count "a" = 2) ∧
    (∃ ls w, Sys.Run World.Step (World.new 0) ls w ∧ ¬ w.seen.inner.set.card ≤ 0) := by
  constructor
  · refine ⟨_, _, ((Sys.Run.nil.snoc (.begin _ "a")).snoc (.begin _ "b")).snoc (.begin _ "a"), ?_⟩
    decide
  · refine ⟨_, _, Sys.Run.nil.snoc (.begin _ "a"), ?_⟩
    decide

end LightTrack.Idempotency
