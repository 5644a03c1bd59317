import LightTrack.Core.Json
import LightTrack.Core.Text
import LightTrack.Lib.Run
import Mathlib.Data.List.AList
import Mathlib.Algebra.BigOperators.Group.List.Basic
import Mathlib.Algebra.GroupWithZero.Nat

/-! # The queue of a client

A call of `track` never waits: the event goes into a bounded queue, from which a worker posts one after
the other, and what does not fit is dropped.  Dropping the client gives the worker some time to drain
the queue.  Whatever is lost is said on `stderr`, one line for each kind of failure and a minute.

The logs of a state tell what happened; nothing the client does reads them.

* `warn_told` : a line that is suppressed is counted in the next one,
* `step_kept`, `sdk_kept` : in every run the events that were taken are posted in order, and every
  other is dropped because the queue was full, abandoned at the end, or lost to a worker that was
  never there; and what was lost is what was told,
* `drop_ends` : a client that is dropped comes to an end.
-/

namespace LightTrack.Client

/-! ## What is said -/

/-- `COOLDOWN`, in milliseconds. -/
def COOLDOWN : ℕ := 60000

/-- A line on `stderr`: what it says, how many like it were held back, and whether it ends with the
hint. -/
structure Line where
  kind : String
  message : String
  held : ℕ
  hint : Bool
  at_ : ℕ

/-- `Diagnostics`, with the lines it has printed. -/
structure Diagnostics where
  quiet : Bool := false
  /-- when a kind was last printed, and how many were held back since -/
  kinds : AList fun _ : String => ℕ × ℕ := ∅
  emitted : ℕ := 0
  suppressed : ℕ := 0
  lines : List Line := []

namespace Diagnostics

variable (d : Diagnostics)

/-- A line is printed. -/
def print (kind message : String) (held now : ℕ) : Diagnostics :=
  { d with
    kinds := d.kinds.insert kind (now, 0)
    emitted := d.emitted + 1
    lines := d.lines ++ [{ kind, message, held, hint := decide (d.emitted = 0), at_ := now }] }

/-- `warn` -/
def warn (kind message : String) (now : ℕ) : Diagnostics :=
  if d.quiet then d
  else
    match d.kinds.lookup kind with
    | some (last, held) =>
      if now - last < COOLDOWN then
        { d with
          kinds := d.kinds.insert kind (last, held + 1)
          suppressed := d.suppressed + 1 }
      else d.print kind message held now
    | none => d.print kind message 0 now

/-- How many were held back since the last line of a kind. -/
def pending (kind : String) : ℕ := ((d.kinds.lookup kind).map Prod.snd).getD 0

/-- How many warnings of a kind the lines account for, with what the next one will say. -/
def told (kind : String) : ℕ :=
  ((d.lines.filter fun l => l.kind = kind).map fun l => 1 + l.held).sum + d.pending kind

/-- When the lines of a kind were printed. -/
def printed (kind : String) : List ℕ := (d.lines.filter fun l => l.kind = kind).map Line.at_

/-- Between two lines of one kind there is a minute. -/
structure Spaced : Prop where
  apart : ∀ kind, (d.printed kind).IsChain fun t t' => t + COOLDOWN ≤ t'
  last : ∀ kind, (d.printed kind).getLast? = (d.kinds.lookup kind).map Prod.fst

end Diagnostics

theorem warn_quiet {d : Diagnostics} (h : d.quiet = true) (kind message : String) (now : ℕ) :
    d.warn kind message now = d := if_pos h

/-- A warning is printed, or held back for less than a minute. -/
theorem warn_cases {d : Diagnostics} (h : d.quiet = false) (kind message : String) (now : ℕ) :
    (d.warn kind message now = d.print kind message (d.pending kind) now ∧
      ∀ last held, d.kinds.lookup kind = some (last, held) → COOLDOWN ≤ now - last) ∨
    ∃ last held, d.kinds.lookup kind = some (last, held) ∧
      d.warn kind message now =
        { d with
          kinds := d.kinds.insert kind (last, held + 1)
          suppressed := d.suppressed + 1 } := by
  unfold Diagnostics.warn Diagnostics.pending
  rw [if_neg (by simp [h])]
  cases hlook : d.kinds.lookup kind with
  | none => exact .inl ⟨rfl, nofun⟩
  | some p =>
    rcases p with ⟨last, held⟩
    by_cases hcool : now - last < COOLDOWN
    · right
      refine ⟨last, held, rfl, ?_⟩
      simp only [if_pos hcool]
    · left
      simp only [if_neg hcool]
      refine ⟨rfl, ?_⟩
      intro last' held' heq
      cases heq
      exact not_lt.1 hcool

theorem print_told (d : Diagnostics) (kind kind' message : String) (now : ℕ) :
    (d.print kind message (d.pending kind) now).told kind' =
      d.told kind' + if kind' = kind then 1 else 0 := by
  unfold Diagnostics.told
  by_cases hkind : kind' = kind
  · subst hkind
    have hpending : (d.print kind' message (d.pending kind') now).pending kind' = 0 := by
      simp [Diagnostics.print, Diagnostics.pending]
    rw [hpending]
    simp only [Diagnostics.print, List.filter_append, List.map_append, List.sum_append]
    simp
    omega
  · have hpending : (d.print kind message (d.pending kind) now).pending kind' = d.pending kind' := by
      unfold Diagnostics.print Diagnostics.pending
      rw [AList.lookup_insert_ne hkind]
    rw [hpending]
    simp [Diagnostics.print, List.filter_append, hkind, Ne.symm hkind]

/-- **Every warning is told**, at once or with the next line of its kind. -/
theorem warn_told {d : Diagnostics} (h : d.quiet = false) (kind kind' message : String) (now : ℕ) :
    (d.warn kind message now).told kind' = d.told kind' + if kind' = kind then 1 else 0 := by
  rcases warn_cases h kind message now with ⟨heq, -⟩ | ⟨last, held, hlook, heq⟩
  · rw [heq]
    exact print_told d kind kind' message now
  · rw [heq]
    unfold Diagnostics.told Diagnostics.pending
    by_cases hkind : kind' = kind
    · subst hkind
      simp [hlook]
      omega
    · simp only [AList.lookup_insert_ne hkind, if_neg hkind]
      rfl

theorem printed_print (d : Diagnostics) (kind kind' message : String) (held now : ℕ) :
    (d.print kind message held now).printed kind' =
      d.printed kind' ++ if kind' = kind then [now] else [] := by
  by_cases hkind : kind' = kind
  · simp [Diagnostics.print, Diagnostics.printed, List.filter_append, hkind]
  · simp [Diagnostics.print, Diagnostics.printed, List.filter_append, hkind, Ne.symm hkind]

theorem warn_spaced {d : Diagnostics} (h : d.Spaced) (kind message : String) (now : ℕ) :
    (d.warn kind message now).Spaced := by
  cases hquiet : d.quiet with
  | true =>
    rw [warn_quiet hquiet]
    exact h
  | false =>
    rcases warn_cases hquiet kind message now with ⟨heq, hcool⟩ | ⟨last, held, hlook, heq⟩
    · rw [heq]
      constructor
      · intro kind'
        rw [printed_print, List.isChain_append]
        by_cases hkind : kind' = kind
        · subst hkind
          rw [if_pos rfl]
          refine ⟨h.apart kind', .singleton now, ?_⟩
          intro t ht t' ht'
          rw [← Option.some.inj ht']
          rw [h.last, Option.mem_def, Option.map_eq_some_iff] at ht
          obtain ⟨⟨last, held⟩, hlook, rfl⟩ := ht
          have hminute := hcool last held hlook
          have hpos : 0 < COOLDOWN := by decide
          dsimp only
          omega
        · rw [if_neg hkind]
          exact ⟨h.apart kind', .nil, nofun⟩
      · intro kind'
        rw [printed_print]
        by_cases hkind : kind' = kind
        · subst hkind
          simp [Diagnostics.print]
        · rw [if_neg hkind, List.append_nil, h.last]
          unfold Diagnostics.print
          rw [AList.lookup_insert_ne hkind]
    · rw [heq]
      refine ⟨h.apart, fun kind' => (h.last kind').trans ?_⟩
      by_cases hkind : kind' = kind
      · subst hkind
        simp [hlook]
      · simp only [AList.lookup_insert_ne hkind]

/-! ## The queue and its worker -/

/-- `MAX_QUEUE` -/
def MAX_QUEUE : ℕ := 1000

/-- `DRAIN_GRACE`, in milliseconds. -/
def DRAIN_GRACE : Int := 5000

/-- A body, and the path it is posted to. -/
abbrev Item := String × Json

/-- What became of an event when it was tracked. -/
inductive Fate where
  | queued
  /-- There was no room behind these. -/
  | full (pending : List Item)
  /-- There is no worker. -/
  | disconnected

/-- `SendOutcome`: a status with what the server said, or no answer, in time or at all. -/
inductive SendOutcome where
  | answered (status : ℕ) (body : String)
  | failed (timedOut : Bool) (error : String)

/-- Where the worker is. -/
inductive Phase where
  | waiting
  /-- An event was received, and nothing decided. -/
  | holding (item : Item)
  | posting (item : Item)
  | done

/-- A client with its worker. -/
structure Sdk where
  baseUrl : String
  hasKey : Bool
  /-- whether the thread could be started -/
  spawned : Bool
  diag : Diagnostics := {}
  queue : List Item := []
  /-- the client is being dropped -/
  dropping : Bool := false
  closed : Bool := false
  /-- 0 while the client is open -/
  deadline : Int := 0
  phase : Phase
  /-- what was tracked, and what became of it -/
  calls : List (Item × Fate) := []
  /-- what was posted, with the clock and the deadline that were read before -/
  posted : List (Item × Int × Int) := []
  /-- what was given up, and when -/
  abandoned : Option (Int × List Item) := none

/-- `body_has_project` -/
def bodyHasProject (body : Json) : Bool := (body.getStr "project_id").any fun s => !isBlank s

/-- `diagnostic_kind` -/
def diagnosticKind : SendOutcome → String
  | .answered status _ => "http-" ++ toString status
  | .failed true _ => "timeout"
  | .failed false _ => "network"

/-- What is printed, apart from how often. -/
structure Messages where
  noProject : (baseUrl : String) → String
  full : String
  leftover : (left : ℕ) → String
  sendFailure : (baseUrl : String) → Item → (hasKey : Bool) → SendOutcome → String

namespace Sdk

variable (msg : Messages) (s : Sdk)

def warn (kind message : String) (now : ℕ) : Sdk := { s with diag := s.diag.warn kind message now }

/-- The channel's answer to `send_raw`. -/
def trySend (item : Item) (now : ℕ) : Sdk :=
  if !s.spawned then { s with calls := s.calls ++ [(item, .disconnected)] }
  else if s.queue.length < MAX_QUEUE then
    { s with queue := s.queue ++ [item], calls := s.calls ++ [(item, .queued)] }
  else
    let s : Sdk := { s with calls := s.calls ++ [(item, .full s.queue)] }
    s.warn "queue-full" msg.full now

/-- `send_raw` -/
def sendRaw (item : Item) (now : ℕ) : Sdk :=
  if !bodyHasProject item.2 && !s.hasKey then
    (s.warn "no-project" (msg.noProject s.baseUrl) now).trySend msg item now
  else s.trySend msg item now

/-- `report` -/
def report (item : Item) (outcome : SendOutcome) (now : ℕ) : Sdk :=
  let failure := s.warn (diagnosticKind outcome) (msg.sendFailure s.baseUrl item s.hasKey outcome) now
  match outcome with
  | .answered status _ => if 200 ≤ status ∧ status < 300 then s else failure
  | .failed .. => failure

end Sdk

/-- A step of the caller or of the worker, with what it reads: the instant of a line that is printed,
and the clock. -/
inductive Move where
  | track (item : Item) (now : ℕ)
  /-- `Drop`: the deadline is stored, -/
  | shut (clock : Int)
  /-- then the channel is closed. -/
  | close
  | receive
  | look (clock : Int) (now : ℕ)
  | answer (outcome : SendOutcome) (now : ℕ)
  | finish

/-- The worker of `Client::new`, and the calls of `Client`. -/
def Sdk.step (msg : Messages) (s : Sdk) : Move → Option Sdk
  | .track item now => if s.dropping = false then some (s.sendRaw msg item now) else none
  | .shut clock =>
    if s.dropping = false then some { s with dropping := true, deadline := clock + DRAIN_GRACE }
    else none
  | .close => if s.dropping = true ∧ s.closed = false then some { s with closed := true } else none
  | .receive =>
    match s.phase, s.queue with
    | .waiting, item :: queue => some { s with phase := .holding item, queue }
    | _, _ => none
  | .look clock now =>
    match s.phase with
    | .holding item =>
      if s.deadline ≠ 0 ∧ s.deadline < clock then
        let left := 1 + s.queue.length
        let s : Sdk :=
          { s with
            phase := .done
            queue := []
            abandoned := some (clock, item :: s.queue) }
        some (s.warn "queue-full" (msg.leftover left) now)
      else
        some { s with phase := .posting item, posted := s.posted ++ [(item, clock, s.deadline)] }
    | _ => none
  | .answer outcome now =>
    match s.phase with
    | .posting item =>
      let s : Sdk := { s with phase := .waiting }
      some (s.report msg item outcome now)
    | _ => none
  | .finish =>
    match s.phase with
    | .waiting => if s.queue = [] ∧ s.closed = true then some { s with phase := .done } else none
    | _ => none

/-! ## What every run keeps -/

/-- `Client::new`, with a thread that was started or not. -/
def Sdk.new (baseUrl : String) (hasKey quiet spawned : Bool) : Sdk where
  baseUrl := String.ofList (baseUrl.toList.reverse.dropWhile (· == '/')).reverse
  hasKey := hasKey
  spawned := spawned
  diag := { quiet }
  phase := if spawned = true then .waiting else .done

def Fate.isQueued : Fate → Bool
  | queued => true
  | _ => false

def Fate.isFull : Fate → Bool
  | full _ => true
  | _ => false

namespace Sdk

variable (s : Sdk)

/-- The events that were taken, in order. -/
def accepted : List Item := (s.calls.filter fun c => c.2.isQueued).map Prod.fst

/-- The event the worker holds. -/
def inHand : List Item :=
  match s.phase with
  | .holding item => [item]
  | _ => []

/-- The events given up at the end. -/
def givenUp : List Item := (s.abandoned.map Prod.snd).getD []

/-- How often something was lost: each event that did not fit, and the end. -/
def losses : ℕ := s.calls.countP (fun c => c.2.isFull) + if s.abandoned.isSome then 1 else 0

/-- What holds of a client at any time. -/
structure Kept : Prop where
  /-- what was taken is posted, held, waiting or given up, in this order -/
  order : s.accepted = s.posted.map Prod.fst ++ s.inHand ++ s.queue ++ s.givenUp
  bound : s.queue.length ≤ MAX_QUEUE
  /-- only a full queue turns an event away, -/
  full : ∀ c ∈ s.calls, ∀ pending, c.2 = .full pending → pending.length = MAX_QUEUE
  /-- and only a client without a worker loses one without a word -/
  silent : ∀ c ∈ s.calls, c.2 = .disconnected ↔ s.spawned = false
  open_ : s.dropping = false → s.deadline = 0
  closing : s.closed = true → s.dropping = true
  /-- while the client is dropped nothing is posted after the deadline, -/
  inTime : ∀ p ∈ s.posted, p.2.2 = 0 ∨ p.2.2 = s.deadline ∧ p.2.1 ≤ s.deadline
  /-- and only after the deadline something is given up -/
  late : ∀ clock items, s.abandoned = some (clock, items) →
    s.dropping = true ∧ s.deadline < clock ∧ items ≠ []
  gone : s.abandoned.isSome = true → s.phase = .done
  ended : s.phase = .done → s.queue = [] ∧ (s.spawned = true → s.dropping = true)
  unborn : s.spawned = false → s.phase = .done
  told : s.diag.quiet = false → s.diag.told "queue-full" = s.losses
  spaced : s.diag.Spaced

end Sdk

theorem kept_new (baseUrl : String) (hasKey quiet spawned : Bool) :
    (Sdk.new baseUrl hasKey quiet spawned).Kept where
  order := by cases spawned <;> rfl
  bound := Nat.zero_le _
  full := nofun
  silent := nofun
  open_ := fun _ => rfl
  closing := nofun
  inTime := nofun
  late := nofun
  gone := nofun
  ended := by
    intro h
    cases spawned with
    | true => cases h
    | false => exact ⟨rfl, nofun⟩
  unborn := by
    intro h
    cases spawned with
    | true => cases h
    | false => rfl
  told := fun _ => rfl
  spaced := ⟨fun _ => .nil, fun _ => rfl⟩

theorem warn_quiet_eq (d : Diagnostics) (kind message : String) (now : ℕ) :
    (d.warn kind message now).quiet = d.quiet := by
  cases hquiet : d.quiet with
  | true => rw [warn_quiet hquiet, hquiet]
  | false =>
    rcases warn_cases hquiet kind message now with ⟨heq, -⟩ | ⟨last, held, -, heq⟩
    · rw [heq]
      exact hquiet
    · rw [heq]
      exact hquiet

section Moves

variable {msg : Messages} {s : Sdk}

/-- A warning of another kind loses nothing. -/
theorem Sdk.Kept.warn (hs : s.Kept) {kind : String} (hkind : "queue-full" ≠ kind) (message : String)
    (now : ℕ) : (s.warn kind message now).Kept :=
  { hs with
    told := by
      intro hquiet
      have hquiet' : s.diag.quiet = false := (warn_quiet_eq s.diag kind message now).symm.trans hquiet
      change (s.diag.warn kind message now).told "queue-full" = s.losses
      rw [warn_told hquiet', if_neg hkind, hs.told hquiet']
      rfl
    spaced := warn_spaced hs.spaced kind message now }

/-- A loss is told. -/
theorem told_loss (s' : Sdk) (hs : s.Kept) (hdiag : s'.diag = s.diag)
    (hlosses : s'.losses = s.losses + 1) (message : String) (now : ℕ)
    (hquiet : (s'.warn "queue-full" message now).diag.quiet = false) :
    (s'.warn "queue-full" message now).diag.told "queue-full" = s'.losses := by
  have hquiet' : s.diag.quiet = false := by
    rw [← hdiag]
    exact (warn_quiet_eq s'.diag "queue-full" message now).symm.trans hquiet
  change (s'.diag.warn "queue-full" message now).told "queue-full" = _
  rw [hdiag, warn_told hquiet', if_pos rfl, hs.told hquiet', hlosses]

theorem givenUp_of_open (hs : s.Kept) (hopen : s.dropping = false) : s.abandoned = none := by
  cases habandoned : s.abandoned with
  | none => rfl
  | some p =>
    have hdropping := (hs.late p.1 p.2 habandoned).1
    rw [hopen] at hdropping
    cases hdropping

theorem kept_disconnected (hs : s.Kept) (hspawned : s.spawned = false) (item : Item) :
    Sdk.Kept { s with calls := s.calls ++ [(item, .disconnected)] } :=
  { hs with
    order := by
      have h := hs.order
      unfold Sdk.accepted at h ⊢
      rw [List.filter_append, List.filter_cons_of_neg Bool.false_ne_true, List.filter_nil, List.append_nil, h]
      rfl
    full := by
      intro c hc pending hfull
      rcases List.mem_append.1 hc with hc | hc
      · exact hs.full c hc pending hfull
      · rw [List.mem_singleton.1 hc] at hfull
        cases hfull
    silent := by
      intro c hc
      rcases List.mem_append.1 hc with hc | hc
      · exact hs.silent c hc
      · rw [List.mem_singleton.1 hc]
        exact iff_of_true rfl hspawned
    told := by
      intro hquiet
      rw [hs.told hquiet]
      unfold Sdk.losses
      rw [List.countP_append]
      rfl }

theorem kept_queued (hs : s.Kept) (hspawned : s.spawned = true) (hopen : s.dropping = false)
    (hroom : s.queue.length < MAX_QUEUE) (item : Item) :
    Sdk.Kept { s with queue := s.queue ++ [item], calls := s.calls ++ [(item, .queued)] } :=
  { hs with
    order := by
      have h := hs.order
      unfold Sdk.accepted Sdk.givenUp at h ⊢
      simp only [givenUp_of_open hs hopen, Option.map_none, Option.getD_none, List.append_nil] at h ⊢
      rw [List.filter_append, List.filter_cons_of_pos rfl, List.filter_nil, List.map_append, h]
      simp only [List.map_cons, List.map_nil, List.append_assoc]
      rfl
    bound := by
      rw [List.length_append]
      exact hroom
    full := by
      intro c hc pending hfull
      rcases List.mem_append.1 hc with hc | hc
      · exact hs.full c hc pending hfull
      · rw [List.mem_singleton.1 hc] at hfull
        cases hfull
    silent := by
      intro c hc
      rcases List.mem_append.1 hc with hc | hc
      · exact hs.silent c hc
      · rw [List.mem_singleton.1 hc]
        exact iff_of_false nofun (by simp [hspawned])
    ended := by
      intro hdone
      have hdropping := (hs.ended hdone).2 hspawned
      rw [hopen] at hdropping
      cases hdropping
    told := by
      intro hquiet
      rw [hs.told hquiet]
      unfold Sdk.losses
      rw [List.countP_append]
      rfl }

theorem kept_full (hs : s.Kept) (hspawned : s.spawned = true) (hroom : ¬ s.queue.length < MAX_QUEUE)
    (item : Item) (message : String) (now : ℕ) :
    (Sdk.warn { s with calls := s.calls ++ [(item, .full s.queue)] } "queue-full" message now).Kept :=
  { hs with
    order := by
      have h := hs.order
      unfold Sdk.accepted at h ⊢
      change ((s.calls ++ [(item, Fate.full s.queue)]).filter _).map Prod.fst = _
      rw [List.filter_append, List.filter_cons_of_neg Bool.false_ne_true, List.filter_nil, List.append_nil, h]
      rfl
    full := by
      intro c hc pending hfull
      rcases List.mem_append.1 hc with hc | hc
      · exact hs.full c hc pending hfull
      · rw [List.mem_singleton.1 hc] at hfull
        cases hfull
        exact le_antisymm hs.bound (not_lt.1 hroom)
    silent := by
      intro c hc
      rcases List.mem_append.1 hc with hc | hc
      · exact hs.silent c hc
      · rw [List.mem_singleton.1 hc]
        exact iff_of_false nofun (by simp [Sdk.warn, hspawned])
    told := by
      intro hquiet
      refine told_loss { s with calls := s.calls ++ [(item, .full s.queue)] } hs rfl ?_ message now
        hquiet
      unfold Sdk.losses
      rw [List.countP_append]
      exact Nat.add_right_comm _ 1 _
    spaced := warn_spaced hs.spaced "queue-full" message now }

theorem kept_trySend (hs : s.Kept) (hopen : s.dropping = false) (item : Item) (now : ℕ) :
    (s.trySend msg item now).Kept := by
  unfold Sdk.trySend
  by_cases hspawned : s.spawned = true
  · rw [if_neg (by simp [hspawned])]
    by_cases hroom : s.queue.length < MAX_QUEUE
    · rw [if_pos hroom]
      exact kept_queued hs hspawned hopen hroom item
    · rw [if_neg hroom]
      exact kept_full hs hspawned hroom item msg.full now
  · rw [if_pos (by simpa using hspawned)]
    exact kept_disconnected hs (by simpa using hspawned) item

/-- The end of a client whose time is up. -/
theorem kept_abandon (hs : s.Kept) {item : Item} {clock : Int} (hnone : s.abandoned = none)
    (horder : s.accepted = s.posted.map Prod.fst ++ [item] ++ s.queue) (hdeadline : s.deadline ≠ 0)
    (hlate : s.deadline < clock) (message : String) (now : ℕ) :
    (Sdk.warn { s with phase := .done, queue := [], abandoned := some (clock, item :: s.queue) }
      "queue-full" message now).Kept := by
  have hdropping : s.dropping = true := by
    rw [← Bool.not_eq_false]
    exact fun h => hdeadline (hs.open_ h)
  exact { hs with
    order := by
      change s.accepted = s.posted.map Prod.fst ++ [] ++ [] ++ item :: s.queue
      rw [horder]
      simp
    bound := Nat.zero_le _
    late := by
      intro clock' items h
      cases h
      exact ⟨hdropping, hlate, nofun⟩
    gone := fun _ => rfl
    ended := fun _ => ⟨rfl, fun _ => hdropping⟩
    unborn := fun _ => rfl
    told := by
      intro hquiet
      refine told_loss { s with
        phase := .done
        queue := []
        abandoned := some (clock, item :: s.queue) } hs rfl ?_ message now hquiet
      unfold Sdk.losses
      rw [hnone]
      rfl
    spaced := warn_spaced hs.spaced "queue-full" message now }

theorem kept_sendRaw (hs : s.Kept) (hopen : s.dropping = false) (item : Item) (now : ℕ) :
    (s.sendRaw msg item now).Kept := by
  unfold Sdk.sendRaw
  split_ifs
  · exact kept_trySend (hs.warn (by decide) _ now) hopen item now
  · exact kept_trySend hs hopen item now

theorem kept_report (hs : s.Kept) (item : Item) (outcome : SendOutcome) (now : ℕ) :
    (s.report msg item outcome now).Kept := by
  have hkind : "queue-full" ≠ diagnosticKind outcome := by
    cases outcome with
    | answered status body =>
      intro h
      have hhead := congrArg (fun t => t.toList.head?) h
      simp [diagnosticKind] at hhead
    | failed timedOut error =>
      cases timedOut
      · exact (by decide : "queue-full" ≠ "network")
      · exact (by decide : "queue-full" ≠ "timeout")
  have hwarn := hs.warn hkind (msg.sendFailure s.baseUrl item s.hasKey outcome) now
  unfold Sdk.report
  cases outcome with
  | answered status body =>
    dsimp only
    split_ifs
    · exact hs
    · exact hwarn
  | failed timedOut error => exact hwarn

end Moves

theorem kept_step {msg : Messages} {s s' : Sdk} {m : Move} (hs : s.Kept)
    (hstep : s.step msg m = some s') : s'.Kept := by
  cases m with
  | track item now =>
    dsimp only [Sdk.step] at hstep
    split_ifs at hstep with hopen
    cases hstep
    exact kept_sendRaw hs hopen item now
  | shut clock =>
    dsimp only [Sdk.step] at hstep
    split_ifs at hstep with hopen
    cases hstep
    exact { hs with
      open_ := nofun
      closing := fun _ => rfl
      inTime := by
        intro p hp
        left
        rcases hs.inTime p hp with hzero | ⟨hzero, -⟩
        · exact hzero
        · rw [hzero, hs.open_ hopen]
      late := by
        intro clock' items h
        have hnone := givenUp_of_open hs hopen
        rw [hnone] at h
        cases h
      ended := fun hdone => ⟨(hs.ended hdone).1, fun _ => rfl⟩ }
  | close =>
    dsimp only [Sdk.step] at hstep
    split_ifs at hstep with hready
    cases hstep
    exact { hs with closing := fun _ => hready.1 }
  | receive =>
    dsimp only [Sdk.step] at hstep
    split at hstep
    · next item queue hphase hqueue =>
      cases hstep
      exact { hs with
        order := by
          have h := hs.order
          unfold Sdk.inHand at h
          rw [hphase, hqueue] at h
          change s.accepted = s.posted.map Prod.fst ++ [item] ++ queue ++ s.givenUp
          simpa using h
        bound := by
          have h := hs.bound
          rw [hqueue] at h
          exact (Nat.le_succ _).trans h
        gone := fun h => nomatch hphase.symm.trans (hs.gone h)
        ended := nofun
        unborn := fun h => nomatch hphase.symm.trans (hs.unborn h) }
    · cases hstep
  | look clock now =>
    dsimp only [Sdk.step] at hstep
    split at hstep
    · next item hphase =>
      have hnone : s.abandoned = none := by
        cases h : s.abandoned with
        | none => rfl
        | some p => exact nomatch hphase.symm.trans (hs.gone (by rw [h]; rfl))
      have horder : s.accepted = s.posted.map Prod.fst ++ [item] ++ s.queue := by
        have h := hs.order
        unfold Sdk.inHand Sdk.givenUp at h
        rw [hphase, hnone] at h
        simpa using h
      have hspawned : s.spawned = true := by
        rw [← Bool.not_eq_false]
        intro h
        exact nomatch hphase.symm.trans (hs.unborn h)
      split_ifs at hstep with hlate
      · cases hstep
        exact kept_abandon hs hnone horder hlate.1 hlate.2 _ now
      · cases hstep
        exact { hs with
          order := by
            change s.accepted = (s.posted ++ [(item, clock, s.deadline)]).map Prod.fst ++ [] ++ s.queue ++
              s.givenUp
            unfold Sdk.givenUp
            rw [horder, hnone]
            simp
          inTime := by
            intro p hp
            rcases List.mem_append.1 hp with hp | hp
            · exact hs.inTime p hp
            · rw [List.mem_singleton.1 hp]
              by_cases hzero : s.deadline = 0
              · exact .inl hzero
              · exact .inr ⟨rfl, not_lt.1 fun hlt => hlate ⟨hzero, hlt⟩⟩
          gone := by
            intro h
            change s.abandoned.isSome = true at h
            rw [hnone] at h
            cases h
          ended := nofun
          unborn := fun h => nomatch hphase.symm.trans (hs.unborn h) }
    · cases hstep
  | answer outcome now =>
    dsimp only [Sdk.step] at hstep
    split at hstep
    · next item hphase =>
      cases hstep
      refine kept_report ?_ item outcome now
      exact { hs with
        order := by
          have h := hs.order
          unfold Sdk.inHand at h
          rw [hphase] at h
          exact h
        gone := fun h => nomatch hphase.symm.trans (hs.gone h)
        ended := nofun
        unborn := fun h => nomatch hphase.symm.trans (hs.unborn h) }
    · cases hstep
  | finish =>
    dsimp only [Sdk.step] at hstep
    split at hstep
    · next hphase =>
      split_ifs at hstep with hready
      cases hstep
      exact { hs with
        order := by
          have h := hs.order
          unfold Sdk.inHand at h
          rw [hphase] at h
          exact h
        gone := fun _ => rfl
        ended := fun _ => ⟨hready.1, fun _ => hs.closing hready.2⟩
        unborn := fun _ => rfl }
    · cases hstep

/-- The steps of a client and its worker. -/
def SdkStep (msg : Messages) (s : Sdk) (m : Move) (s' : Sdk) : Prop := s.step msg m = some s'

/-- **What is tracked is posted in order, or its loss is told**, in every interleaving of the calls, the
worker and the drop. -/
theorem sdk_kept {msg : Messages} {baseUrl : String} {hasKey quiet spawned : Bool} {moves : List Move}
    {s : Sdk} (hrun : Sys.Run (SdkStep msg) (.new baseUrl hasKey quiet spawned) moves s) : s.Kept :=
  hrun.invariant (kept_new baseUrl hasKey quiet spawned) fun _ _ _ hstep hs => kept_step hs hstep

/-- Two events are tracked, one is posted and refused, and the client is dropped for too long. -/
def sampleMoves : List Move :=
  [.track ("/v1/events", .null) 0, .receive, .look 0 0, .track ("/v1/scores", .null) 10, .shut 1000,
    .answer (.answered 503 "overloaded") 20, .close, .receive, .look 7000 30]

def sampleMessages : Messages where
  noProject := fun _ => "no project is configured"
  full := "queue is full (1000 pending) - dropping events."
  leftover := fun left => toString left ++ " queued event(s) were not sent"
  sendFailure := fun baseUrl item _ _ => "event not sent to " ++ baseUrl ++ item.1

theorem sampleMoves_run : ∃ s, s.closed = true ∧
    Sys.Run (SdkStep sampleMessages) (.new "http://h/" true false true) sampleMoves s :=
  ⟨_, rfl, .of_foldlM sampleMoves rfl⟩

theorem sdk_kept_sample :
    ∃ s, Sys.Run (SdkStep sampleMessages) (.new "http://h/" true false true) sampleMoves s ∧ s.Kept := by
  obtain ⟨s, -, hrun⟩ := sampleMoves_run
  exact ⟨s, hrun, sdk_kept hrun⟩

/-! ## The end -/

/-- How many steps the worker has before it, at most. -/
def Phase.work : Phase → ℕ
  | done => 0
  | waiting => 1
  | posting _ => 2
  | holding _ => 3

def Sdk.work (s : Sdk) : ℕ := 3 * s.queue.length + s.phase.work

/-- Once the channel is closed only the worker moves, and each of its moves is one less to make. -/
theorem work_step {msg : Messages} {s s' : Sdk} {m : Move} (hs : s.Kept) (hclosed : s.closed = true)
    (hstep : SdkStep msg s m s') : s'.closed = true ∧ s'.work + 1 ≤ s.work := by
  have hdropping := hs.closing hclosed
  unfold SdkStep at hstep
  cases m with
  | track item now =>
    dsimp only [Sdk.step] at hstep
    rw [if_neg (by simp [hdropping])] at hstep
    cases hstep
  | shut clock =>
    dsimp only [Sdk.step] at hstep
    rw [if_neg (by simp [hdropping])] at hstep
    cases hstep
  | close =>
    dsimp only [Sdk.step] at hstep
    rw [if_neg (by simp [hclosed])] at hstep
    cases hstep
  | receive =>
    dsimp only [Sdk.step] at hstep
    split at hstep
    · next item queue hphase hqueue =>
      cases hstep
      refine ⟨hclosed, ?_⟩
      simp only [Sdk.work, Phase.work, hphase, hqueue, List.length_cons]
      omega
    · cases hstep
  | look clock now =>
    dsimp only [Sdk.step] at hstep
    split at hstep
    · next item hphase =>
      split_ifs at hstep
      · cases hstep
        refine ⟨hclosed, ?_⟩
        simp only [Sdk.work, Sdk.warn, Phase.work, hphase, List.length_nil]
        omega
      · cases hstep
        refine ⟨hclosed, ?_⟩
        simp only [Sdk.work, Phase.work, hphase]
        omega
    · cases hstep
  | answer outcome now =>
    dsimp only [Sdk.step] at hstep
    split at hstep
    · next item hphase =>
      cases hstep
      have hreport : ∀ t : Sdk, (t.report msg item outcome now).closed = t.closed ∧
          (t.report msg item outcome now).work = t.work := by
        intro t
        unfold Sdk.report
        cases outcome with
        | answered status body =>
          dsimp only
          split_ifs <;> exact ⟨rfl, rfl⟩
        | failed timedOut error => exact ⟨rfl, rfl⟩
      rw [(hreport _).1, (hreport _).2]
      refine ⟨hclosed, ?_⟩
      simp only [Sdk.work, Phase.work, hphase]
      omega
    · cases hstep
  | finish =>
    dsimp only [Sdk.step] at hstep
    split at hstep
    · next hphase =>
      split_ifs at hstep
      cases hstep
      refine ⟨hclosed, ?_⟩
      simp only [Sdk.work, Phase.work, hphase]
      omega
    · cases hstep

/-- Until it is done the worker has a move. -/
theorem exists_move (msg : Messages) {s : Sdk} (hclosed : s.closed = true) (hphase : s.phase ≠ .done) :
    ∃ m s', SdkStep msg s m s' := by
  unfold SdkStep
  cases h : s.phase with
  | done => exact absurd h hphase
  | waiting =>
    cases hqueue : s.queue with
    | nil => exact ⟨.finish, { s with phase := .done }, by simp only [Sdk.step, h, hqueue, hclosed]; rfl⟩
    | cons item queue =>
      exact ⟨.receive, { s with phase := .holding item, queue }, by simp only [Sdk.step, h, hqueue]⟩
  | holding item =>
    refine ⟨.look s.deadline 0, ?_⟩
    simp only [Sdk.step, h]
    rw [if_neg fun hlate => lt_irrefl _ hlate.2]
    exact ⟨_, rfl⟩
  | posting item =>
    refine ⟨.answer (.failed true "") 0, ?_⟩
    simp only [Sdk.step, h]
    exact ⟨_, rfl⟩

/-- What is promised of a client whose channel is closed. -/
structure Ends (msg : Messages) (s : Sdk) : Prop where
  bounded : ∀ moves s', Sys.Run (SdkStep msg) s moves s' → moves.length ≤ 3 * MAX_QUEUE + 3
  progress : ∀ moves s', Sys.Run (SdkStep msg) s moves s' → s'.phase ≠ .done →
    ∃ m s'', SdkStep msg s' m s''
  settled : ∀ moves s', Sys.Run (SdkStep msg) s moves s' → s'.phase = .done →
    s'.accepted = s'.posted.map Prod.fst ++ s'.givenUp

/-- **A client that is dropped comes to an end**: however the server answers, the worker stops after so
many moves, and then every event that was taken was posted or given up. -/
theorem drop_ends {msg : Messages} {baseUrl : String} {hasKey quiet spawned : Bool} {moves : List Move}
    {s : Sdk} (hrun : Sys.Run (SdkStep msg) (.new baseUrl hasKey quiet spawned) moves s)
    (hclosed : s.closed = true) : Ends msg s := by
  have hs : s.Kept := hrun.invariant (kept_new baseUrl hasKey quiet spawned)
    fun _ _ _ hstep hs => kept_step hs hstep
  have hrest : ∀ moves s', Sys.Run (SdkStep msg) s moves s' →
      s'.Kept ∧ s'.closed = true ∧ moves.length + s'.work ≤ s.work := by
    intro moves s' hrun'
    refine hrun'.trace_invariant (I := fun ls t => t.Kept ∧ t.closed = true ∧ ls.length + t.work ≤ s.work)
      ⟨hs, hclosed, by simp⟩ ?_
    rintro ls a m b hstep ⟨ha, hopen, hle⟩
    obtain ⟨hclosed', hwork⟩ := work_step ha hopen hstep
    refine ⟨kept_step ha hstep, hclosed', ?_⟩
    rw [List.length_append, List.length_singleton]
    omega
  constructor
  · intro moves s' hrun'
    have hle := (hrest moves s' hrun').2.2
    have hbound := hs.bound
    have hphase : s.phase.work ≤ 3 := by cases s.phase <;> simp [Phase.work]
    unfold Sdk.work at hle
    omega
  · intro moves s' hrun' hphase
    exact exists_move msg (hrest moves s' hrun').2.1 hphase
  · intro moves s' hrun' hdone
    obtain ⟨hkept, -, -⟩ := hrest moves s' hrun'
    have horder := hkept.order
    unfold Sdk.inHand at horder
    rw [hdone, (hkept.ended hdone).1] at horder
    simpa using horder

theorem drop_ends_sample :
    ∃ s, Sys.Run (SdkStep sampleMessages) (.new "http://h/" true false true) sampleMoves s ∧
      Ends sampleMessages s := by
  obtain ⟨s, hclosed, hrun⟩ := sampleMoves_run
  exact ⟨s, hrun, drop_ends hrun hclosed⟩

end LightTrack.Client
