import LightTrack.Lib.Run
import LightTrack.Store.PriceFill

/-! # The SQLite store

The store's tables, its usage cache, and the operations that touch the events
table: plain and admission-checked inserts, batches in one transaction, and the
forward fill.  `Op` labels one call and `SqliteStore.exec` runs it, so a run of the
store is a run of `SqliteStore.Step`.

The clock is read once per insert; a batch reads it again for every item, each
reading some delay after the one before.
-/

namespace LightTrack

/-- The store: its tables and the usage cache beside them. -/
structure SqliteStore where
  events : EventTable
  limits : RuleSet
  revenue : List RevenueEvent
  cache : UsageCache

/-- `limits::list` with `only_enabled`. -/
def RuleSet.list (limits : RuleSet) (project : String) : RuleSet where
  rules := limits.rules.filter fun r => r.projectId == project && r.enabled
  ids_nodup := limits.ids_nodup.sublist (List.filter_sublist.map _)

/-- `revenue::list`: period records overlapping `[since, until)` and point records within it,
newest first. -/
def revenueList (revenue : List RevenueEvent) (project : String) (since until_ : Time) :
    List RevenueEvent :=
  (revenue.filter fun r =>
    r.projectId == project &&
      match r.periodStart, r.periodEnd with
      | some ps, some pe => decide (ps < until_ ∧ since < pe)
      | _, _ => decide (since ≤ r.ts ∧ r.ts < until_)).mergeSort fun a b => decide (b.ts ≤ a.ts)

/-! ## Checked inserts -/

/-- `insert_checked_with_rules`: evaluate the rules against cached usage, insert if admitted. -/
def insertCheckedWithRules (revenue : List RevenueEvent) (rules : RuleSet) (now : Time)
    (ev : LlmEvent) (t : EventTable) (c : UsageCache) :
    Except StoreError Admission × EventTable × UsageCache :=
  let (admission, c) := rules.admission (UsageCache.reader t.rows ev.projectId now) ev now
    (revenueList revenue ev.projectId) c
  match admission with
  | .error e => (.error e, t, c)
  | .ok a =>
    if a.admitted then
      match t.insert ev with
      | .error e => (.error e, t, c)
      | .ok t => (.ok a, t, c)
    else (.ok a, t, c)

/-- How the transaction of a batch ends. -/
inductive BatchTx where
  | beginFails (e : String)
  | ends (commit : Except String Unit)

/-- The items of a batch, in order, with the rules read so far for each project. -/
def batchLoop (limits : RuleSet) (revenue : List RevenueEvent) :
    List (Time × LlmEvent) → List (String × RuleSet) → EventTable → UsageCache →
      List (Except StoreError Admission) × EventTable × UsageCache
  | [], _, t, c => ([], t, c)
  | (now, ev) :: items, rulesByProject, t, c =>
    let (rules, rulesByProject) :=
      match rulesByProject.lookup ev.projectId with
      | some rules => (rules, rulesByProject)
      | none => (limits.list ev.projectId, (ev.projectId, limits.list ev.projectId) :: rulesByProject)
    let (res, t, c) := insertCheckedWithRules revenue rules now ev t c
    let (out, t, c) := batchLoop limits revenue items rulesByProject t c
    (res :: out, t, c)

namespace SqliteStore

/-- `Store::insert_event`. -/
def insertEvent (s : SqliteStore) (ev : LlmEvent) : Except StoreError Unit × SqliteStore :=
  match s.events.insert ev with
  | .error e => (.error e, s)
  | .ok events => (.ok (), { s with events })

/-- `Store::insert_event_checked` at `now`. -/
def insertEventChecked (s : SqliteStore) (now : Time) (ev : LlmEvent) :
    Except StoreError Admission × SqliteStore :=
  let (res, events, cache) :=
    insertCheckedWithRules s.revenue (s.limits.list ev.projectId) now ev s.events s.cache
  (res, { s with events, cache })

/-- `Store::insert_events_checked`: one transaction, with a clock reading for every item. A batch
that is lost answers every item with the same error; a failed commit also resets the cache. -/
def insertEventsChecked (s : SqliteStore) (items : List (Time × LlmEvent)) (tx : BatchTx) :
    List (Except StoreError Admission) × SqliteStore :=
  match tx with
  | .beginFails e => (items.map fun _ => .error (.other ("batch begin failed: " ++ e)), s)
  | .ends commit =>
    let (out, events, cache) := batchLoop s.limits s.revenue items [] s.events s.cache
    match commit with
    | .ok _ => (out, { s with events, cache })
    | .error e =>
      -- the rows are rolled back, and the cache that folded them in forgets everything
      (items.map fun _ => .error (.other ("batch commit failed: " ++ e)),
        { s with cache := cache.reset })

/-- `Store::fill_unpriced_cost`. -/
def fillUnpricedCost (s : SqliteStore) (f : PriceFill) : SqliteStore :=
  { s with events := (f.fill s.events).1 }

/-- Ask the cache for rolling usage. -/
def askUsage (s : SqliteStore) (project : String) (key : UsageKey) (now : Time) :
    Except StoreError Usage × SqliteStore :=
  let (u, cache) := s.cache.usage s.events.rows project now key
  (u, { s with cache })

end SqliteStore

/-! ## Runs -/

/-- One call on the store. Each item of a batch carries the delay before its clock reading. -/
inductive Op where
  | insertEvent (ev : LlmEvent)
  | insertEventChecked (ev : LlmEvent)
  | insertEventsChecked (items : List (ℕ × LlmEvent)) (tx : BatchTx)
  | fillUnpricedCost (f : PriceFill)
  | askUsage (project : String) (key : UsageKey)
  | configure (limits : RuleSet) (revenue : List RevenueEvent)

/-- The clock readings of a batch that starts at `now`. -/
def readings (now : Time) : List (ℕ × LlmEvent) → List (Time × LlmEvent)
  | [] => []
  | (d, ev) :: items => (now + d, ev) :: readings (now + d) items

/-- The last clock reading of a batch that starts at `now`. -/
def lastReading (now : Time) : List (ℕ × LlmEvent) → Time
  | [] => now
  | (d, _) :: items => lastReading (now + d) items

namespace SqliteStore

/-- Run one call that starts at `now`. -/
def exec (now : Time) (op : Op) (s : SqliteStore) : Sys.Timed Time SqliteStore :=
  match op with
  | .insertEvent ev => ⟨now, (s.insertEvent ev).2⟩
  | .insertEventChecked ev => ⟨now, (s.insertEventChecked now ev).2⟩
  | .insertEventsChecked items tx =>
    ⟨lastReading now items, (s.insertEventsChecked (readings now items) tx).2⟩
  | .fillUnpricedCost f => ⟨now, s.fillUnpricedCost f⟩
  | .askUsage project key => ⟨now, (s.askUsage project key now).2⟩
  | .configure limits revenue => ⟨now, { s with limits, revenue }⟩

/-- One call under a clock that does not go backwards. -/
abbrev Step := Sys.Ticks exec

/-- A store just opened: any tables, and a cache that has seen nothing. -/
def Init (s : Sys.Timed Time SqliteStore) : Prop := s.state.cache = .empty

end SqliteStore

end LightTrack
