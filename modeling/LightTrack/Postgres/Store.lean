import LightTrack.Postgres.Admission
import LightTrack.Store.Sqlite

/-! # The Postgres store

The tables and the calls of the SQLite store, without a cache beside them: every
admission reads its usage from the rows, inside the transaction that inserts.

`PgStore.exec` runs one call, and a run of the store is a run of `PgStore.Step`.
-/

namespace LightTrack

namespace Postgres

/-- One group of `usage_by_scope`. -/
def scopeGroup (g : Option String × List EventRow) : Except PgError ScopeUsage :=
  (usageCols g.2).map fun usage => { value := g.1, usage }

/-- A row under its value of the dimension of `s`. -/
def scopeKeyed (s : LimitScope) (r : EventRow) : Except PgError (Option String × EventRow) :=
  (scopeExpr s r).map fun k => (k, r)

/-- `usage_by_scope`: rolling usage grouped by every distinct value of one dimension, most
expensive first. The window is measured on the client's `ts`. -/
def usageByScope (rows : List EventRow) (project : String) (since : Time) (s : LimitScope) :
    Except StoreError (List ScopeUsage) :=
  match (rows.filter fun r => r.projectId == project && decide (since ≤ r.ts)).mapM (scopeKeyed s)
  with
  | .error e => .error (pgerr e)
  | .ok pairs =>
    let groups := (Group.groupsBy Prod.fst pairs).map fun g => (g.1, g.2.map Prod.snd)
    ((groups.mapM scopeGroup).map fun gs =>
      gs.mergeSort fun a b => decide (b.usage.costUsd ≤ a.usage.costUsd)).mapError pgerr

end Postgres

/-- The store: its tables. -/
structure PgStore where
  events : EventTable
  limits : RuleSet
  revenue : List RevenueEvent

namespace PgStore

/-- `Store::insert_event`. -/
def insertEvent (s : PgStore) (ev : LlmEvent) : Except StoreError Unit × PgStore :=
  match Postgres.insert s.events ev with
  | .error e => (.error e, s)
  | .ok events => (.ok (), { s with events })

/-- `Store::insert_event_checked` at `now`. -/
def insertEventChecked (s : PgStore) (now : Time) (ev : LlmEvent) :
    Except StoreError Admission × PgStore :=
  let (res, events) := Postgres.admitOne s.events s.revenue (s.limits.list ev.projectId) now ev
  (res, { s with events })

/-- The items of a batch, in order, each in a savepoint of its own: one that fails leaves the
items before it in place. -/
def batchLoop (limits : RuleSet) (revenue : List RevenueEvent) :
    List (Time × LlmEvent) → EventTable → List (Except StoreError Admission) × EventTable
  | [], t => ([], t)
  | (now, ev) :: items, t =>
    let (res, t) := Postgres.admitOne t revenue (limits.list ev.projectId) now ev
    let (out, t) := batchLoop limits revenue items t
    (res :: out, t)

/-- `Store::insert_events_checked`: one transaction. If it cannot begin or commit, every item gets
the same error and nothing is stored. -/
def insertEventsChecked (s : PgStore) (items : List (Time × LlmEvent)) (tx : BatchTx) :
    List (Except StoreError Admission) × PgStore :=
  match tx with
  | .beginFails e => (items.map fun _ => .error (.other ("postgres: " ++ e)), s)
  | .ends commit =>
    let (out, events) := batchLoop s.limits s.revenue items s.events
    match commit with
    | .ok _ => (out, { s with events })
    | .error e => (items.map fun _ => .error (.other ("postgres: " ++ e)), s)

/-- Run one call that starts at `now`. -/
def exec (now : Time) (op : Op) (s : PgStore) : Sys.Timed Time PgStore :=
  match op with
  | .insertEvent ev => ⟨now, (s.insertEvent ev).2⟩
  | .insertEventChecked ev => ⟨now, (s.insertEventChecked now ev).2⟩
  | .insertEventsChecked items tx =>
    ⟨lastReading now items, (s.insertEventsChecked (readings now items) tx).2⟩
  | .fillUnpricedCost f => ⟨now, { s with events := (f.fill s.events).1 }⟩
  | .askUsage _ _ => ⟨now, s⟩
  | .configure limits revenue => ⟨now, { s with limits, revenue }⟩

/-- One call under a clock that does not go backwards. -/
abbrev Step := Sys.Ticks exec

end PgStore

end LightTrack
