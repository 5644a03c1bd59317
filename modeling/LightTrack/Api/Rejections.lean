import LightTrack.Api.Ingest
import LightTrack.Lib.Group
import LightTrack.Store.Codec
import Mathlib.Tactic.Linarith

/-! # Flushes of the rejection ledger

Rejected calls are counted in buckets, one for each project, metric, window and scope.  A flush
reports what a bucket has counted since the last one and moves its mark; a bucket without a hit for
a day is dropped, by any of the three operations.

The ledger of the ingest doors is this one without its marks (`toLedger`).

* `label_injective` : no two buckets of a project share a label,
* `Sound` : what holds of every bucket between two calls,
* `run_conserves` : where flushes come in time, what was flushed and what is left over are what was
  recorded,
* `rejections_reported_once` : a flush reports exactly what has not been reported.
-/

namespace LightTrack

/-! ## The ledger -/

/-- One bucket, with the marks of the last flush. -/
structure FlushEntry extends RejectionEntry where
  flushedCount : ℕ
  flushedCostUsd : ℚ

/-- A snapshot of one bucket. -/
structure RejectionStat where
  metric : LimitMetric
  window : LimitWindow
  scope : Option LimitScope
  count : ℕ
  estMissedCostUsd : ℚ
  firstTs : String
  lastTs : String

/-- One line of a flush. -/
structure RejectionDelta where
  project : String
  label : String
  count : ℕ
  costUsd : ℚ
  deriving DecidableEq

/-- The map of the ledger, and the epoch second of its last prune on the hot path. -/
structure FlushLedger where
  entries : List (RejectionKey × FlushEntry) := []
  lastPrune : Int := 0

namespace FlushLedger

open RejectionLedger (ttl)

/-- Buckets without their marks. -/
def unmarked (entries : List (RejectionKey × FlushEntry)) : List (RejectionKey × RejectionEntry) :=
  entries.map fun e => (e.1, e.2.toRejectionEntry)

/-- The ledger without its marks. -/
def toLedger (l : FlushLedger) : RejectionLedger where
  entries := unmarked l.entries
  lastPrune := l.lastPrune

/-- `prune`: keep the buckets whose last hit is younger than the TTL. -/
def prune (now : Time) (entries : List (RejectionKey × FlushEntry)) :
    List (RejectionKey × FlushEntry) :=
  entries.filter fun e => decide (now - e.2.lastTs < ttl)

/-- A bucket before its first hit. -/
def fresh (now : Time) : FlushEntry where
  count := 0
  estCostUsd := 0
  firstTs := now
  lastTs := now
  flushedCount := 0
  flushedCostUsd := 0

/-- One hit. -/
def hit (now : Time) (cost : ℚ) (e : FlushEntry) : FlushEntry :=
  { e with count := e.count + 1, estCostUsd := e.estCostUsd + cost, lastTs := now }

/-- The buckets after a hit under a key. -/
def hitAt (key : RejectionKey) (now : Time) (cost : ℚ) (entries : List (RejectionKey × FlushEntry)) :
    List (RejectionKey × FlushEntry) :=
  (key, hit now cost ((entries.lookup key).getD (fresh now))) ::
    entries.filter fun e => e.1 ≠ key

/-- `record`: the running count of the bucket, and the ledger. The hot path prunes at most once a
minute. -/
def record (key : RejectionKey) (cost : ℚ) (now : Time) (l : FlushLedger) : ℕ × FlushLedger :=
  let nowS := now / Time.second
  let pruned : FlushLedger :=
    if 60 ≤ nowS - l.lastPrune then ⟨prune now l.entries, nowS⟩ else l
  ((hit now cost ((pruned.entries.lookup key).getD (fresh now))).count,
    { pruned with entries := hitAt key now cost pruned.entries })

/-- `{:?}` of a metric -/
def metricDebug : LimitMetric → String
  | .costUsd => "CostUsd"
  | .calls => "Calls"
  | .tokens => "Tokens"

/-- `{:?}` of a window -/
def windowDebug : LimitWindow → String
  | .hour => "Hour"
  | .day => "Day"
  | .month => "Month"

/-- `snapshot`: the live buckets of a project, worst first. `scopeDebug` is the `{:?}` of a scope,
which only orders buckets of the same count. -/
def snapshot (scopeDebug : Option LimitScope → String) (project : String) (now : Time)
    (l : FlushLedger) : List RejectionStat × FlushLedger :=
  let entries := prune now l.entries
  let line := fun s : RejectionStat =>
    metricDebug s.metric ++ "/" ++ windowDebug s.window ++ "/" ++ scopeDebug s.scope
  let stats := (entries.filter fun e => e.1.1 == project).map fun e =>
    { metric := e.1.2.1
      window := e.1.2.2.1
      scope := e.1.2.2.2
      count := e.2.count
      estMissedCostUsd := e.2.estCostUsd
      firstTs := fmtTs e.2.firstTs
      lastTs := fmtTs e.2.lastTs }
  (stats.mergeSort fun a b =>
      decide (b.count < a.count) || (a.count == b.count && decide (line a ≤ line b)),
    { l with entries := entries })

/-- The label of a bucket. -/
def label (key : RejectionKey) : String :=
  match key with
  | (_, metric, window, some s) => metricDebug metric ++ "/" ++ windowDebug window ++ " [" ++
      (s.kindStr ++ "=" ++ s.value) ++ "]"
  | (_, metric, window, none) => metricDebug metric ++ "/" ++ windowDebug window

/-- What a bucket has counted since the last flush. -/
def pendingCount (e : FlushEntry) : ℕ := e.count - e.flushedCount

/-- What that has cost. -/
def pendingCost (e : FlushEntry) : ℚ := max (e.estCostUsd - e.flushedCostUsd) 0

/-- The line of a bucket in a flush; a bucket with nothing new has none. -/
def deltaOf (e : RejectionKey × FlushEntry) : Option RejectionDelta :=
  if pendingCount e.2 = 0 then none
  else some ⟨e.1.1, label e.1, pendingCount e.2, pendingCost e.2⟩

/-- A bucket after a flush. -/
def marked (e : FlushEntry) : FlushEntry :=
  if pendingCount e = 0 then e
  else { e with flushedCount := e.count, flushedCostUsd := e.estCostUsd }

/-- `take_deltas`: what has been rejected since the last call, which is marked as reported. -/
def takeDeltas (now : Time) (l : FlushLedger) : List RejectionDelta × FlushLedger :=
  let entries := prune now l.entries
  (entries.filterMap deltaOf, { l with entries := entries.map fun e => (e.1, marked e.2) })

/-! ## The ledger of the ingest doors -/

theorem unmarked_prune (now : Time) (entries : List (RejectionKey × FlushEntry)) :
    unmarked (prune now entries) =
      (unmarked entries).filter fun e => decide (now - e.2.lastTs < ttl) := by
  unfold unmarked
  rw [List.filter_map]
  rfl

theorem lookup_unmarked (key : RejectionKey) (entries : List (RejectionKey × FlushEntry)) :
    (unmarked entries).lookup key = (entries.lookup key).map FlushEntry.toRejectionEntry := by
  induction entries with
  | nil => rfl
  | cons e entries ih =>
    change List.lookup key ((e.1, e.2.toRejectionEntry) :: unmarked entries) = _
    rw [List.lookup_cons, List.lookup_cons, ih]
    cases key == e.1 <;> rfl

theorem unmarked_hitAt (key : RejectionKey) (now : Time) (cost : ℚ)
    (entries : List (RejectionKey × FlushEntry)) :
    unmarked (hitAt key now cost entries) =
      (key, (hit now cost ((entries.lookup key).getD (fresh now))).toRejectionEntry) ::
        (unmarked entries).filter fun e => e.1 ≠ key := by
  unfold hitAt unmarked
  rw [List.map_cons, List.filter_map]
  rfl

/-- **Without its marks, a recording is that of the ingest doors.** -/
theorem toLedger_record (key : RejectionKey) (cost : ℚ) (now : Time) (l : FlushLedger) :
    (l.record key cost now).2.toLedger = l.toLedger.record key cost now := by
  -- the entry that is hit is the same with and without its marks
  have hentry : ∀ entries : List (RejectionKey × FlushEntry),
      (hit now cost ((entries.lookup key).getD (fresh now))).toRejectionEntry =
        { ((unmarked entries).lookup key).getD
            { count := 0, estCostUsd := 0, firstTs := now, lastTs := now } with
          count := (((unmarked entries).lookup key).getD
            { count := 0, estCostUsd := 0, firstTs := now, lastTs := now }).count + 1
          estCostUsd := (((unmarked entries).lookup key).getD
            { count := 0, estCostUsd := 0, firstTs := now, lastTs := now }).estCostUsd + cost
          lastTs := now } := by
    intro entries
    rw [lookup_unmarked]
    cases entries.lookup key <;> rfl
  unfold record RejectionLedger.record toLedger
  simp only
  by_cases hprune : 60 ≤ now / Time.second - l.lastPrune
  · simp only [if_pos hprune, unmarked_hitAt, hentry, unmarked_prune, RejectionLedger.prune]
  · simp only [if_neg hprune, unmarked_hitAt, hentry]

end FlushLedger

/-! ## Labels -/

/-- A text is split at its first separator in one way. -/
theorem append_sep_inj {sep : Char} {a a' b b' : String} (ha : sep ∉ a.toList)
    (ha' : sep ∉ a'.toList) (h : a ++ String.singleton sep ++ b = a' ++ String.singleton sep ++ b') :
    a = a' ∧ b = b' := by
  have hsplit : ∀ x y : String, sep ∉ x.toList →
      splitOnce sep (x ++ String.singleton sep ++ y) = some (x, y) := by
    intro x y hx
    have hlist : (x ++ String.singleton sep ++ y).toList = x.toList ++ sep :: y.toList := by
      simp [String.toList_append]
    rw [splitOnce_of_not_mem hlist hx, String.ofList_toList, String.ofList_toList]
  have heq := (hsplit a b ha).symm.trans ((congrArg (splitOnce sep) h).trans (hsplit a' b' ha'))
  simpa using heq

theorem LimitScope.eq_of_parts {s s' : LimitScope} (hkind : s.kindStr = s'.kindStr)
    (hvalue : s.value = s'.value) : s = s' := by
  cases s <;> cases s' <;> simp_all [LimitScope.kindStr, LimitScope.value]

theorem LimitScope.eq_not_mem_kindStr (s : LimitScope) : '=' ∉ s.kindStr.toList := by
  have hall : ∀ k ∈ ["provider", "model", "name", "api_key", "customer"], '=' ∉ k.toList := by
    decide
  refine hall _ ?_
  cases s <;> simp [LimitScope.kindStr]

namespace FlushLedger

open RejectionLedger (ttl)

theorem metricDebug_injective : Function.Injective metricDebug := by
  intro m m' h
  cases m <;> cases m' <;> first | rfl | exact absurd h (by decide)

theorem windowDebug_injective : Function.Injective windowDebug := by
  intro w w' h
  cases w <;> cases w' <;> first | rfl | exact absurd h (by decide)

theorem slash_not_mem_metricDebug (m : LimitMetric) : '/' ∉ (metricDebug m).toList := by
  cases m <;> decide

theorem blank_not_mem_windowDebug (w : LimitWindow) : ' ' ∉ (windowDebug w).toList := by
  cases w <;> decide

/-- What the label has after the window. -/
def labelTail (scope : Option LimitScope) : String :=
  match scope with
  | some s => " [" ++ (s.kindStr ++ "=" ++ s.value) ++ "]"
  | none => ""

theorem label_eq (project : String) (metric : LimitMetric) (window : LimitWindow)
    (scope : Option LimitScope) :
    label (project, metric, window, scope) = metricDebug metric ++ String.singleton '/' ++
      (windowDebug window ++ labelTail scope) := by
  have hslash : String.singleton '/' = "/" := rfl
  unfold label labelTail
  cases scope with
  | none => simp only [String.append_empty, hslash]
  | some s => simp only [hslash, String.append_assoc]

/-- The window and the scope can be told from the rest of a label. -/
theorem labelTail_inj {w w' : LimitWindow} {scope scope' : Option LimitScope}
    (h : windowDebug w ++ labelTail scope = windowDebug w' ++ labelTail scope') :
    w = w' ∧ scope = scope' := by
  have hblank : ∀ s : LimitScope, labelTail (some s) =
      String.singleton ' ' ++ ("[" ++ (s.kindStr ++ "=" ++ s.value) ++ "]") := by
    intro s
    have hone : " [" = String.singleton ' ' ++ "[" := rfl
    change " [" ++ (s.kindStr ++ "=" ++ s.value) ++ "]" = _
    rw [hone]
    simp only [String.append_assoc]
  -- a scope is announced by a blank, and no window has one
  have hmixed : ∀ (v v' : LimitWindow) (s : LimitScope),
      windowDebug v ++ labelTail none ≠ windowDebug v' ++ labelTail (some s) := by
    intro v v' s heq
    have hmem : ' ' ∈ (windowDebug v' ++ labelTail (some s)).toList := by
      rw [hblank]
      simp [String.toList_append]
    rw [← heq, labelTail, String.append_empty] at hmem
    exact blank_not_mem_windowDebug v hmem
  cases scope with
  | none =>
    cases scope' with
    | none =>
      rw [labelTail, String.append_empty, String.append_empty] at h
      exact ⟨windowDebug_injective h, rfl⟩
    | some s' => exact absurd h (hmixed _ _ _)
  | some s =>
    cases scope' with
    | none => exact absurd h.symm (hmixed _ _ _)
    | some s' =>
      rw [hblank, hblank] at h
      have hsplit := (String.append_assoc ..).trans (h.trans (String.append_assoc ..).symm)
      rcases append_sep_inj (blank_not_mem_windowDebug w) (blank_not_mem_windowDebug w') hsplit with
        ⟨hw, hscope⟩
      have hlabel : s.kindStr ++ "=" ++ s.value = s'.kindStr ++ "=" ++ s'.value := by
        have hlist := congrArg String.toList hscope
        simp only [String.toList_append, List.append_assoc, List.append_cancel_left_eq] at hlist
        have hcancel : ∀ x y : List Char, x ++ "]".toList = y ++ "]".toList → x = y :=
          fun x y hxy => List.append_cancel_right hxy
        refine String.toList_inj.1 (hcancel _ _ ?_)
        simpa only [String.toList_append, List.append_assoc] using hlist
      rcases append_sep_inj s.eq_not_mem_kindStr s'.eq_not_mem_kindStr hlabel with ⟨hkind, hvalue⟩
      exact ⟨windowDebug_injective hw, congrArg some (LimitScope.eq_of_parts hkind hvalue)⟩

/-- **No two buckets of a project share a label.** -/
theorem label_injective {k k' : RejectionKey} (hproject : k.1 = k'.1)
    (h : label k = label k') : k = k' := by
  rcases k with ⟨project, metric, window, scope⟩
  rcases k' with ⟨project', metric', window', scope'⟩
  rw [label_eq, label_eq] at h
  rcases append_sep_inj (slash_not_mem_metricDebug _) (slash_not_mem_metricDebug _) h with
    ⟨hmetric, htail⟩
  rcases labelTail_inj htail with ⟨rfl, rfl⟩
  rcases metricDebug_injective hmetric with rfl
  exact congrArg (·, metric, window, scope) hproject

/-! ## Buckets between two calls -/

/-- What holds of a bucket between two calls. `anchor` is the first rejection since the last flush:
what is still to be reported was hit since. -/
structure Sound (anchor : Option Time) (e : FlushEntry) : Prop where
  count_le : e.flushedCount ≤ e.count
  cost_le : e.flushedCostUsd ≤ e.estCostUsd
  settled : e.flushedCount = e.count → e.flushedCostUsd = e.estCostUsd
  recent : e.flushedCount = e.count ∨ ∃ a ∈ anchor, a ≤ e.lastTs

section Sound

variable {anchor : Option Time} {e : FlushEntry} {now : Time} {cost : ℚ}

theorem Sound.settled_of_pendingCount (h : Sound anchor e) (hnone : pendingCount e = 0) :
    e.flushedCount = e.count := by
  have hle := h.count_le
  unfold pendingCount at hnone
  omega

/-- A hit, at or after the anchor. -/
theorem Sound.hit {a : Time} (h : Sound anchor e) (hcost : 0 ≤ cost) (ha : a ≤ now) :
    Sound (some a) (hit now cost e) := by
  refine ⟨h.count_le.trans (Nat.le_succ _), ?_, ?_, .inr ⟨a, rfl, ha⟩⟩
  · exact h.cost_le.trans (le_add_of_nonneg_right hcost)
  · intro hcount
    have hle := h.count_le
    change e.flushedCount = e.count + 1 at hcount
    omega

theorem sound_fresh : Sound anchor (fresh now) :=
  ⟨le_refl _, le_refl _, fun _ => rfl, .inl rfl⟩

/-- A later rejection leaves the first one where it is. -/
theorem Sound.mono (h : Sound anchor e) (t : Time) : Sound (some (anchor.getD t)) e := by
  refine ⟨h.count_le, h.cost_le, h.settled, h.recent.imp_right ?_⟩
  intro hrecent
  rcases hrecent with ⟨a, ha, hlast⟩
  rw [Option.mem_def.1 ha]
  exact ⟨a, rfl, hlast⟩

/-- A flush leaves nothing to report. -/
theorem Sound.marked (h : Sound anchor e) {anchor' : Option Time} :
    Sound anchor' (marked e) ∧ pendingCount (FlushLedger.marked e) = 0 := by
  unfold FlushLedger.marked
  by_cases hnone : pendingCount e = 0
  · rw [if_pos hnone]
    have hcount := h.settled_of_pendingCount hnone
    exact ⟨⟨h.count_le, h.cost_le, h.settled, .inl hcount⟩, hnone⟩
  · rw [if_neg hnone]
    exact ⟨⟨le_refl _, le_refl _, fun _ => rfl, .inl rfl⟩, Nat.sub_self _⟩

/-- A bucket that is pruned before a day has passed since the anchor has nothing to report. -/
theorem Sound.settled_of_pruned (h : Sound anchor e) (hnow : ∀ a ∈ anchor, now < a + ttl)
    (hprune : ttl ≤ now - e.lastTs) : e.flushedCount = e.count := by
  rcases h.recent with hsettled | ⟨a, ha, hlast⟩
  · exact hsettled
  · have hlt := hnow a ha
    have harith : ∀ n d l x : Int, n < x + d → d ≤ n - l → x ≤ l → False := by
      intro n d l x _ _ _
      omega
    exact (harith _ _ _ _ hlt hprune hlast).elim

end Sound

/-! ## What is counted -/

/-- Something buckets add up: the rejections, or what they cost. -/
structure Measure (M : Type) [AddCommMonoid M] where
  /-- what a bucket has still to report -/
  pending : FlushEntry → M
  /-- what a line of a flush reports -/
  reported : RejectionDelta → M
  /-- what a rejection of some cost adds -/
  weight : ℚ → M
  pending_hit : ∀ {anchor now cost} {e : FlushEntry}, Sound anchor e → 0 ≤ cost →
    pending (hit now cost e) = pending e + weight cost
  pending_settled : ∀ {anchor} {e : FlushEntry}, Sound anchor e → pendingCount e = 0 →
    pending e = 0
  reported_delta : ∀ project label e,
    reported ⟨project, label, pendingCount e, pendingCost e⟩ = pending e

theorem pendingCount_hit {anchor : Option Time} {now : Time} {cost : ℚ} {e : FlushEntry}
    (h : Sound anchor e) : pendingCount (hit now cost e) = pendingCount e + 1 := by
  have hle := h.count_le
  change e.count + 1 - e.flushedCount = e.count - e.flushedCount + 1
  omega

theorem pendingCost_hit {anchor : Option Time} {now : Time} {cost : ℚ} {e : FlushEntry}
    (h : Sound anchor e) (hcost : 0 ≤ cost) :
    pendingCost (hit now cost e) = pendingCost e + cost := by
  have hle : 0 ≤ e.estCostUsd - e.flushedCostUsd := sub_nonneg.2 h.cost_le
  have hlater : 0 ≤ e.estCostUsd + cost - e.flushedCostUsd := by linarith
  unfold pendingCost hit
  simp only
  rw [max_eq_left hle, max_eq_left hlater]
  ring

theorem pendingCost_settled {anchor : Option Time} {e : FlushEntry} (h : Sound anchor e)
    (hnone : pendingCount e = 0) : pendingCost e = 0 := by
  have hcost := h.settled (h.settled_of_pendingCount hnone)
  unfold pendingCost
  rw [hcost, sub_self, max_self]

/-- The rejections. -/
def countMeasure : Measure ℕ where
  pending := pendingCount
  reported := RejectionDelta.count
  weight := fun _ => 1
  pending_hit := fun h _ => pendingCount_hit h
  pending_settled := fun _ hnone => hnone
  reported_delta := fun _ _ _ => rfl

/-- What the rejections have cost. -/
def costMeasure : Measure ℚ where
  pending := pendingCost
  reported := RejectionDelta.costUsd
  weight := id
  pending_hit := pendingCost_hit
  pending_settled := pendingCost_settled
  reported_delta := fun _ _ _ => rfl

/-- What lines of flushes report for a bucket. -/
def reportedFor {M : Type} [AddCommMonoid M] (μ : Measure M) (ds : List RejectionDelta)
    (k : RejectionKey) : M :=
  (ds.map fun d => if d.project = k.1 ∧ d.label = label k then μ.reported d else 0).sum

section Measure

variable {M : Type} [AddCommMonoid M] {μ : Measure M} {anchor : Option Time} {now : Time}
  {entries : List (RejectionKey × FlushEntry)}

theorem reportedFor_append (ds ds' : List RejectionDelta) (k : RejectionKey) :
    reportedFor μ (ds ++ ds') k = reportedFor μ ds k + reportedFor μ ds' k := by
  unfold reportedFor
  rw [List.map_append, List.sum_append]

/-- **A prune loses nothing** that is still to be reported. -/
theorem weightAt_prune (h : ∀ e ∈ entries, Sound anchor e.2)
    (hnow : ∀ a ∈ anchor, now < a + ttl) (k : RejectionKey) :
    Group.weightAt μ.pending (prune now entries) k = Group.weightAt μ.pending entries k := by
  refine Group.weightAt_filter ?_ k
  intro e he hdrop
  have hold := not_lt.1 (of_decide_eq_false hdrop)
  have hsettled := (h e he).settled_of_pruned hnow hold
  refine μ.pending_settled (h e he) ?_
  unfold pendingCount
  rw [hsettled, Nat.sub_self]

/-- **A flush reports what the buckets have pending.** -/
theorem reportedFor_deltas (h : ∀ e ∈ entries, Sound anchor e.2) (k : RejectionKey) :
    reportedFor μ (entries.filterMap deltaOf) k = Group.weightAt μ.pending entries k := by
  induction entries with
  | nil => rfl
  | cons e entries ih =>
    have hih := ih fun e' he' => h e' (List.mem_cons_of_mem _ he')
    rw [Group.weightAt_cons, ← hih]
    by_cases hnone : pendingCount e.2 = 0
    · have hdelta : deltaOf e = none := if_pos hnone
      rw [List.filterMap_cons_none hdelta, μ.pending_settled (h e (List.mem_cons_self ..)) hnone,
        ite_self, zero_add]
    · have hdelta : deltaOf e =
          some ⟨e.1.1, label e.1, pendingCount e.2, pendingCost e.2⟩ := if_neg hnone
      have hkey : (e.1.1 = k.1 ∧ label e.1 = label k) ↔ e.1 = k := by
        constructor
        · intro hboth
          exact label_injective hboth.1 hboth.2
        · intro heq
          rw [heq]
          exact ⟨rfl, rfl⟩
      rw [List.filterMap_cons_some hdelta]
      unfold reportedFor
      rw [List.map_cons, List.sum_cons, μ.reported_delta]
      simp only [hkey]

end Measure

/-! ## Runs -/

/-- A call of the ledger. -/
inductive Call where
  | record (key : RejectionKey) (cost : ℚ)
  | snapshot (project : String)
  | takeDeltas
  deriving DecidableEq

/-- The ledger, and all that was flushed. -/
structure Reporting where
  ledger : FlushLedger
  flushed : List RejectionDelta

/-- One call at its instant. -/
def Reporting.step (scopeDebug : Option LimitScope → String) (s : Reporting) (c : Time × Call) :
    Reporting :=
  match c.2 with
  | .record key cost => ⟨(s.ledger.record key cost c.1).2, s.flushed⟩
  | .snapshot project => ⟨(s.ledger.snapshot scopeDebug project c.1).2, s.flushed⟩
  | .takeDeltas => ⟨(s.ledger.takeDeltas c.1).2, s.flushed ++ (s.ledger.takeDeltas c.1).1⟩

/-- The calls one after the other, from an empty ledger. -/
def report (scopeDebug : Option LimitScope → String) (calls : List (Time × Call)) : Reporting :=
  calls.foldl (Reporting.step scopeDebug) ⟨{}, []⟩

/-- What is still to be reported for a bucket. -/
def Reporting.pendingFor {M : Type} [AddCommMonoid M] (μ : Measure M) (s : Reporting)
    (k : RejectionKey) : M :=
  Group.weightAt μ.pending s.ledger.entries k

/-- What one call records for a bucket. -/
def recordedBy {M : Type} [AddCommMonoid M] (μ : Measure M) (k : RejectionKey) (c : Time × Call) : M :=
  match c.2 with
  | .record key cost => if key = k then μ.weight cost else 0
  | _ => 0

/-- What calls record for a bucket. -/
def recorded {M : Type} [AddCommMonoid M] (μ : Measure M) (calls : List (Time × Call))
    (k : RejectionKey) : M :=
  (calls.map (recordedBy μ k)).sum

/-- No rejection is recorded at a negative cost. -/
def Call.CostNonneg : Call → Prop
  | .record _ cost => 0 ≤ cost
  | _ => True

/-- The first rejection since the last flush, after a call. -/
def nextAnchor (anchor : Option Time) (c : Time × Call) : Option Time :=
  match c.2 with
  | .record _ _ => some (anchor.getD c.1)
  | .snapshot _ => anchor
  | .takeDeltas => none

/-- No call comes a day or more after the first rejection since the last flush. -/
def FlushedInTime : Option Time → List (Time × Call) → Prop
  | _, [] => True
  | anchor, c :: calls =>
    (∀ a ∈ anchor, c.1 < a + ttl) ∧ FlushedInTime (nextAnchor anchor c) calls

section Step

variable {M : Type} [AddCommMonoid M] {μ : Measure M} {scopeDebug : Option LimitScope → String}
  {anchor : Option Time} {s : Reporting} {c : Time × Call}

/-- The buckets a recording finds: those of the ledger, or those a prune leaves. -/
theorem entries_record (key : RejectionKey) (cost : ℚ) (now : Time) (l : FlushLedger) :
    ∃ found, (found = l.entries ∨ found = prune now l.entries) ∧
      (l.record key cost now).2.entries = hitAt key now cost found := by
  unfold record
  by_cases hprune : 60 ≤ now / Time.second - l.lastPrune
  · refine ⟨prune now l.entries, .inr rfl, ?_⟩
    simp only [if_pos hprune]
  · refine ⟨l.entries, .inl rfl, ?_⟩
    simp only [if_neg hprune]

theorem mem_prune {now : Time} {entries : List (RejectionKey × FlushEntry)}
    {e : RejectionKey × FlushEntry} (h : e ∈ prune now entries) : e ∈ entries :=
  (List.mem_filter.1 h).1

theorem mem_of_lookup {key : RejectionKey} {found : List (RejectionKey × FlushEntry)}
    {e : FlushEntry} (h : found.lookup key = some e) : (key, e) ∈ found := by
  induction found with
  | nil => cases h
  | cons e' found ih =>
    rw [List.lookup_cons] at h
    cases hkey : key == e'.1 with
    | true =>
      rw [hkey] at h
      rw [beq_iff_eq.1 hkey, ← Option.some.inj h]
      exact List.mem_cons_self ..
    | false =>
      rw [hkey] at h
      exact List.mem_cons_of_mem _ (ih h)

/-- The bucket that is hit was there, or is fresh. -/
theorem sound_lookup {key : RejectionKey} {found : List (RejectionKey × FlushEntry)} {now : Time}
    (h : ∀ e ∈ found, Sound anchor e.2) : Sound anchor ((found.lookup key).getD (fresh now)) := by
  cases hlookup : found.lookup key with
  | none => exact sound_fresh
  | some e => exact h _ (mem_of_lookup hlookup)

/-- What holds of a ledger between two calls: no key repeats, and every bucket is sound. -/
structure LedgerSound (anchor : Option Time) (l : FlushLedger) : Prop where
  keys : (l.entries.map Prod.fst).Nodup
  entries : ∀ e ∈ l.entries, Sound anchor e.2

theorem keys_prune {now : Time} {entries : List (RejectionKey × FlushEntry)}
    (h : (entries.map Prod.fst).Nodup) : ((prune now entries).map Prod.fst).Nodup :=
  h.sublist (List.filter_sublist.map Prod.fst)

/-- What a recording finds is sound as well. -/
theorem LedgerSound.found {l : FlushLedger} {found : List (RejectionKey × FlushEntry)} {now : Time}
    (h : LedgerSound anchor l) (hfound : found = l.entries ∨ found = prune now l.entries) :
    (found.map Prod.fst).Nodup ∧ ∀ e ∈ found, Sound anchor e.2 := by
  rcases hfound with rfl | rfl
  · exact ⟨h.keys, h.entries⟩
  · exact ⟨keys_prune h.keys, fun e he => h.entries e (mem_prune he)⟩

/-- **One call keeps the ledger sound.** -/
theorem sound_step (h : LedgerSound anchor s.ledger) (hclock : ∀ a ∈ anchor, a ≤ c.1)
    (hcost : c.2.CostNonneg) :
    LedgerSound (nextAnchor anchor c) (s.step scopeDebug c).ledger := by
  rcases c with ⟨now, call⟩
  cases call with
  | record key cost =>
    -- the first call of a ledger is its own anchor
    have hanchor : anchor.getD now ≤ now := by
      cases anchor with
      | none => exact le_refl _
      | some a => exact hclock a rfl
    rcases entries_record key cost now s.ledger with ⟨found, hfound, hentries⟩
    rcases h.found hfound with ⟨hkeys, hsound⟩
    constructor
    · change ((s.ledger.record key cost now).2.entries.map Prod.fst).Nodup
      rw [hentries, hitAt, List.map_cons, List.nodup_cons]
      refine ⟨?_, hkeys.sublist (List.filter_sublist.map Prod.fst)⟩
      -- the entry of the key was taken out before the new one went in
      intro hmem
      rcases List.mem_map.1 hmem with ⟨e, he, hkey⟩
      exact of_decide_eq_true (List.mem_filter.1 he).2 hkey
    · intro e he
      change e ∈ (s.ledger.record key cost now).2.entries at he
      rw [hentries, hitAt] at he
      rcases List.mem_cons.1 he with rfl | he
      · exact (sound_lookup hsound).hit hcost hanchor
      · exact (hsound e (List.mem_filter.1 he).1).mono now
  | snapshot project =>
    exact ⟨keys_prune h.keys, fun e he => h.entries e (mem_prune he)⟩
  | takeDeltas =>
    constructor
    · have hsame : ((prune now s.ledger.entries).map fun e => (e.1, marked e.2)).map Prod.fst =
          (prune now s.ledger.entries).map Prod.fst := by
        rw [List.map_map]
        rfl
      change (((prune now s.ledger.entries).map fun e => (e.1, marked e.2)).map Prod.fst).Nodup
      rw [hsame]
      exact keys_prune h.keys
    · intro e he
      rcases List.mem_map.1 he with ⟨e', he', rfl⟩
      exact (h.entries e' (mem_prune he')).marked.1

/-- **One call keeps the balance**: what was flushed and what is pending grow by what it records. -/
theorem conserves_step (h : LedgerSound anchor s.ledger)
    (hnow : ∀ a ∈ anchor, c.1 < a + ttl) (hcost : c.2.CostNonneg) (k : RejectionKey) :
    reportedFor μ (s.step scopeDebug c).flushed k + (s.step scopeDebug c).pendingFor μ k =
      reportedFor μ s.flushed k + s.pendingFor μ k + recordedBy μ k c := by
  rcases c with ⟨now, call⟩
  have hprune : Group.weightAt μ.pending (prune now s.ledger.entries) k = s.pendingFor μ k :=
    weightAt_prune h.entries hnow k
  cases call with
  | record key cost =>
    rcases entries_record key cost now s.ledger with ⟨found, hfound, hentries⟩
    rcases h.found hfound with ⟨hkeys, hsound⟩
    have hsame : Group.weightAt μ.pending found k = s.pendingFor μ k := by
      rcases hfound with rfl | rfl
      · rfl
      · exact hprune
    -- the bucket that is hit weighs what was pending under its key
    have hweight : μ.pending (hit now cost ((found.lookup key).getD (fresh now))) =
        Group.weightAt μ.pending found key + μ.weight cost := by
      rw [μ.pending_hit (sound_lookup hsound) hcost, Group.weightAt_eq_lookup hkeys]
      cases found.lookup key with
      | none =>
        have hfresh : Sound anchor (fresh now) := sound_fresh
        exact congrArg (· + μ.weight cost) (μ.pending_settled hfresh rfl)
      | some e => rfl
    change _ + Group.weightAt μ.pending (s.ledger.record key cost now).2.entries k = _
    rw [hentries, hitAt, Group.weightAt_put hweight, hsame, ← add_assoc]
    rfl
  | snapshot project =>
    change _ + Group.weightAt μ.pending (prune now s.ledger.entries) k = _ + 0
    rw [hprune, add_zero]
    rfl
  | takeDeltas =>
    have hsound : ∀ e ∈ prune now s.ledger.entries, Sound anchor e.2 :=
      fun e he => h.entries e (mem_prune he)
    have hnone : Group.weightAt μ.pending
        ((prune now s.ledger.entries).map fun e => (e.1, marked e.2)) k = 0 := by
      refine Group.weightAt_eq_zero ?_
      intro e he _
      rcases List.mem_map.1 he with ⟨e', he', rfl⟩
      have hmarked : Sound anchor (marked e'.2) ∧ pendingCount (marked e'.2) = 0 :=
        (hsound e' he').marked
      exact μ.pending_settled hmarked.1 hmarked.2
    change reportedFor μ (s.flushed ++ (prune now s.ledger.entries).filterMap deltaOf) k +
      Group.weightAt μ.pending ((prune now s.ledger.entries).map fun e => (e.1, marked e.2)) k = _ + 0
    rw [hnone, reportedFor_append, reportedFor_deltas hsound, hprune, add_zero]

end Step

/-- What a run keeps: sound buckets, and a balance that grows by what was recorded. -/
theorem run_conserves (scopeDebug : Option LimitScope → String) (calls : List (Time × Call))
    {anchor : Option Time} {s : Reporting} (h : LedgerSound anchor s.ledger)
    (hstart : ∀ a ∈ anchor, ∀ c ∈ calls, a ≤ c.1)
    (hclock : (calls.map Prod.fst).Pairwise (· ≤ ·)) (htimely : FlushedInTime anchor calls)
    (hcost : ∀ c ∈ calls, c.2.CostNonneg) {M : Type} [AddCommMonoid M] (μ : Measure M)
    (k : RejectionKey) :
    reportedFor μ (calls.foldl (Reporting.step scopeDebug) s).flushed k +
        (calls.foldl (Reporting.step scopeDebug) s).pendingFor μ k =
      reportedFor μ s.flushed k + s.pendingFor μ k + recorded μ calls k := by
  induction calls generalizing anchor s with
  | nil => exact (add_zero _).symm
  | cons c calls ih =>
    rcases htimely with ⟨hnow, htimely⟩
    rw [List.map_cons, List.pairwise_cons] at hclock
    have hfirst : ∀ c' ∈ calls, c.1 ≤ c'.1 := fun c' hc' => hclock.1 _ (List.mem_map_of_mem hc')
    have hc := hcost c (List.mem_cons_self ..)
    have hsound : LedgerSound (nextAnchor anchor c) (s.step scopeDebug c).ledger :=
      sound_step h (fun a ha => hstart a ha c (List.mem_cons_self ..)) hc
    have hstart' : ∀ a ∈ nextAnchor anchor c, ∀ c' ∈ calls, a ≤ c'.1 := by
      intro a ha c' hc'
      have hlater := fun a ha => hstart a ha c' (List.mem_cons_of_mem _ hc')
      rcases c with ⟨now, call⟩
      cases call with
      | record key cost =>
        rcases Option.mem_some.1 ha with rfl
        cases anchor with
        | none => exact hfirst c' hc'
        | some a => exact hlater a rfl
      | snapshot project => exact hlater a ha
      | takeDeltas => cases ha
    have hrest := ih hsound hstart' hclock.2 htimely fun c' hc' => hcost c' (List.mem_cons_of_mem _ hc')
    rw [List.foldl_cons, hrest, conserves_step h hnow hc, add_assoc]
    unfold recorded
    rw [List.map_cons, List.sum_cons]

/-! ## Reported once -/

/-- Every rejection of a run is reported exactly once: for each bucket, what was flushed and what is
still pending are what was recorded, in number and in cost; no line is empty, and each is of one
bucket; and a flush leaves nothing to report. -/
structure ReportedOnce (scopeDebug : Option LimitScope → String) (calls : List (Time × Call)) :
    Prop where
  counts : ∀ k, reportedFor countMeasure (report scopeDebug calls).flushed k +
    (report scopeDebug calls).pendingFor countMeasure k = recorded countMeasure calls k
  costs : ∀ k, reportedFor costMeasure (report scopeDebug calls).flushed k +
    (report scopeDebug calls).pendingFor costMeasure k = recorded costMeasure calls k
  lines : ∀ d ∈ (report scopeDebug calls).flushed,
    0 < d.count ∧ ∃! k : RejectionKey, d.project = k.1 ∧ d.label = label k
  flushes : ∀ before t, calls = before ++ [(t, .takeDeltas)] →
    ∀ k, reportedFor countMeasure (report scopeDebug calls).flushed k =
      recorded countMeasure calls k

/-- A line of a flush is of one bucket, and not empty. -/
theorem line_of_mem_deltas {entries : List (RejectionKey × FlushEntry)} {d : RejectionDelta}
    (h : d ∈ entries.filterMap deltaOf) :
    0 < d.count ∧ ∃! k : RejectionKey, d.project = k.1 ∧ d.label = label k := by
  rcases List.mem_filterMap.1 h with ⟨e, -, he⟩
  unfold deltaOf at he
  split_ifs at he with hnone
  rcases Option.some.inj he with rfl
  refine ⟨Nat.pos_of_ne_zero hnone, e.1, ⟨rfl, rfl⟩, ?_⟩
  intro k hk
  exact label_injective hk.1.symm hk.2.symm

theorem line_of_mem_flushed (scopeDebug : Option LimitScope → String) (calls : List (Time × Call))
    {s : Reporting}
    (hs : ∀ d ∈ s.flushed,
      0 < d.count ∧ ∃! k : RejectionKey, d.project = k.1 ∧ d.label = label k) :
    ∀ d ∈ (calls.foldl (Reporting.step scopeDebug) s).flushed,
      0 < d.count ∧ ∃! k : RejectionKey, d.project = k.1 ∧ d.label = label k := by
  induction calls generalizing s with
  | nil => exact hs
  | cons c calls ih =>
    refine ih ?_
    rcases c with ⟨now, call⟩
    cases call with
    | record key cost => exact hs
    | snapshot project => exact hs
    | takeDeltas =>
      intro d hd
      rcases List.mem_append.1 hd with hd | hd
      · exact hs d hd
      · exact line_of_mem_deltas hd

theorem FlushedInTime.of_prefix {anchor : Option Time} {calls rest : List (Time × Call)}
    (h : FlushedInTime anchor (calls ++ rest)) : FlushedInTime anchor calls := by
  induction calls generalizing anchor with
  | nil => trivial
  | cons c calls ih => exact ⟨h.1, ih h.2⟩

/-- A flush at the end leaves nothing to report. -/
theorem pendingFor_takeDeltas (scopeDebug : Option LimitScope → String)
    (before : List (Time × Call)) (t : Time) (k : RejectionKey) :
    (report scopeDebug (before ++ [(t, .takeDeltas)])).pendingFor countMeasure k = 0 := by
  unfold report
  rw [List.foldl_append]
  refine Group.weightAt_eq_zero ?_
  intro e he _
  rcases List.mem_map.1 he with ⟨e', -, rfl⟩
  change pendingCount (marked e'.2) = 0
  unfold marked
  by_cases hnone : pendingCount e'.2 = 0
  · rw [if_pos hnone, hnone]
  · rw [if_neg hnone]
    exact Nat.sub_self _

/-- **Every rejection is reported exactly once**, at each point of every sequence of calls under a
clock that does not go back, in which no call comes a day or more after the first rejection since
the last flush. -/
theorem rejections_reported_once (scopeDebug : Option LimitScope → String)
    (calls : List (Time × Call)) (hclock : (calls.map Prod.fst).Pairwise (· ≤ ·))
    (htimely : FlushedInTime none calls) (hcost : ∀ c ∈ calls, c.2.CostNonneg) :
    ∀ before, before <+: calls → ReportedOnce scopeDebug before := by
  intro before hbefore
  rcases hbefore with ⟨rest, rfl⟩
  have hpart : ((before.map Prod.fst)).Pairwise (· ≤ ·) := by
    rw [List.map_append, List.pairwise_append] at hclock
    exact hclock.1
  have hall : ∀ {M : Type} [AddCommMonoid M] (μ : Measure M) k,
      reportedFor μ (report scopeDebug before).flushed k +
        (report scopeDebug before).pendingFor μ k = recorded μ before k := by
    intro M _ μ k
    have hrun := @run_conserves scopeDebug before none ⟨{}, []⟩
      ⟨List.nodup_nil, fun _ he => absurd he List.not_mem_nil⟩
      (fun _ ha => absurd ha (Option.not_mem_none _)) hpart
      htimely.of_prefix (fun c hc => hcost c (List.mem_append_left _ hc)) M _ μ k
    have hempty : reportedFor μ [] k + Reporting.pendingFor μ ⟨{}, []⟩ k = 0 := add_zero _
    rw [hempty, zero_add] at hrun
    exact hrun
  refine ⟨hall countMeasure, hall costMeasure, ?_, ?_⟩
  · exact line_of_mem_flushed scopeDebug before fun d hd => absurd hd List.not_mem_nil
  · intro before' t heq k
    have hbalance := hall countMeasure k
    have hnone := pendingFor_takeDeltas scopeDebug before' t k
    rw [← heq] at hnone
    rwa [hnone, add_zero] at hbalance

/-- A rejection of a cap on calls, reported by a flush a second later. -/
def flushedRejection : List (Time × Call) :=
  [(0, .record ("p", .calls, .day, none) 1), (Time.second, .takeDeltas)]

/-- The theorem at one rejection and one flush. -/
theorem flushedRejection_reported : ReportedOnce (fun _ => "") flushedRejection := by
  refine rejections_reported_once (fun _ => "") flushedRejection (by decide) ?_ ?_ _
    (List.prefix_refl _)
  · refine ⟨fun a ha => absurd ha (Option.not_mem_none _), ?_, trivial⟩
    intro a ha
    rw [← Option.mem_some.1 ha]
    decide
  · intro c hc
    rcases List.mem_cons.1 hc with rfl | hc
    · exact zero_le_one
    · rcases List.mem_singleton.1 hc with rfl
      trivial

/-- Flushes less than a day apart. -/
def TakesApart (calls : List (Time × Call)) : Prop :=
  ((calls.filter fun c => c.2 == .takeDeltas).map Prod.fst).IsChain
    fun t t' => t' < t + ttl

/-- A rejection, and a look at the ledger a day later. -/
def unflushedRejection : List (Time × Call) :=
  [(0, .record ("p", .calls, .day, none) 1), (ttl, .snapshot "p")]

/-- **Flushes less than a day apart are not enough**: a rejection before the first flush is dropped
by a read of the ledger a day later, and is never reported. -/
theorem rejection_dropped_unreported :
    ¬ ∀ (scopeDebug : Option LimitScope → String) (calls : List (Time × Call)),
      (calls.map Prod.fst).Pairwise (· ≤ ·) → TakesApart calls →
        (∀ c ∈ calls, c.2.CostNonneg) → ∀ k,
          reportedFor countMeasure (report scopeDebug calls).flushed k +
            (report scopeDebug calls).pendingFor countMeasure k = recorded countMeasure calls k := by
  intro h
  have hcost : ∀ c ∈ unflushedRejection, c.2.CostNonneg := by
    intro c hc
    rcases List.mem_cons.1 hc with rfl | hc
    · exact zero_le_one
    · rcases List.mem_singleton.1 hc with rfl
      trivial
  have hapart : TakesApart unflushedRejection := .nil
  have hbalance := h (fun _ => "") unflushedRejection (by decide) hapart hcost
    ("p", .calls, .day, none)
  have hno : reportedFor countMeasure (report (fun _ => "") unflushedRejection).flushed
      ("p", .calls, .day, none) + (report (fun _ => "") unflushedRejection).pendingFor countMeasure
        ("p", .calls, .day, none) ≠ recorded countMeasure unflushedRejection
          ("p", .calls, .day, none) := by
    decide +kernel
  exact hno hbalance

end FlushLedger

end LightTrack
