import LightTrack.Lib.OrdMap
import LightTrack.Store.Admission
import LightTrack.Store.Events
import Mathlib.Data.Prod.Lex

/-! # The incremental usage cache

Per `(project, window, scope)` the cache keeps a running total, the in-window
contributions ordered by `(received_at, rowid)`, and the largest rowid folded in.
A read loads the rows past that rowid, then evicts what aged out.

* `fromRow_of_loadable`, `fromRow_of_not_loadable` : which rows a load can read, and
  as what,
* `loaded_contrib` : a loaded row adds what the full scan counts for it,
* `UsageCache.reader` : reads of different keys do not disturb each other.
-/

namespace LightTrack

/-! ## Loading a row -/

/-- One freshly loaded event row. -/
structure NewRow where
  rowid : Nat
  project : String
  provider : String
  model : String
  name : Option String
  receivedAt : Time
  cost : Option ℚ
  tokens : Int
  costSource : Option String
  apiKeyId : Option String
  customerId : Option String

/-- `NewRow::from_row`: every column is read through its typed getter. -/
def NewRow.fromRow (r : EventRow) : Except SqliteError NewRow := do
  let tokens ← r.tokens.getI64
  let costSource ← (jsonExtract r.metadata "cost_source").getOptString
  let apiKeyId ← (jsonExtract r.metadata "api_key_id").getOptString
  let customerId ← (jsonExtract r.metadata "customer_id").getOptString
  return { rowid := r.rowid, project := r.projectId, provider := r.provider, model := r.model
           name := r.name, receivedAt := r.windowTs, cost := r.costUsd, tokens, costSource
           apiKeyId, customerId }

/-- The dimensions a loaded row is matched on. -/
def NewRow.dims (r : NewRow) : ScopeDims :=
  { provider := r.provider, model := r.model, name := r.name, apiKeyId := r.apiKeyId
    customerId := r.customerId }

/-- What a loaded row adds to the running total. -/
def NewRow.contrib (r : NewRow) : Usage :=
  let cost := r.cost.getD 0
  { costUsd := cost
    calls := 1
    tokens := r.tokens
    unpricedCalls := if r.cost.isNone then 1 else 0
    clientCostUsd := if r.costSource == some "client" then cost else 0 }

/-- The dimensions of a stored row. -/
def EventRow.scopeDims (r : EventRow) : ScopeDims :=
  { provider := r.provider, model := r.model, name := r.name
    apiKeyId := (jsonExtract r.metadata "api_key_id").asText
    customerId := (jsonExtract r.metadata "customer_id").asText }

/-- A row the cache load can read. -/
structure EventRow.Loadable (r : EventRow) : Prop where
  tokens : r.TokensFit
  costSource : (jsonExtract r.metadata "cost_source").IsTextual
  apiKeyId : (jsonExtract r.metadata "api_key_id").IsTextual
  customerId : (jsonExtract r.metadata "customer_id").IsTextual

instance : DecidablePred EventRow.Loadable := fun r =>
  decidable_of_iff
    (r.TokensFit ∧ (jsonExtract r.metadata "cost_source").IsTextual ∧
      (jsonExtract r.metadata "api_key_id").IsTextual ∧
      (jsonExtract r.metadata "customer_id").IsTextual)
    ⟨fun ⟨ht, hs, hk, hc⟩ => ⟨ht, hs, hk, hc⟩, fun h =>
      ⟨h.tokens, h.costSource, h.apiKeyId, h.customerId⟩⟩

/-- The row a loadable row loads as. -/
def EventRow.loaded (r : EventRow) : NewRow where
  rowid := r.rowid
  project := r.projectId
  provider := r.provider
  model := r.model
  name := r.name
  receivedAt := r.windowTs
  cost := r.costUsd
  tokens := r.inputTokens + r.outputTokens
  costSource := (jsonExtract r.metadata "cost_source").asText
  apiKeyId := (jsonExtract r.metadata "api_key_id").asText
  customerId := (jsonExtract r.metadata "customer_id").asText

theorem fromRow_of_loadable {r : EventRow} (h : r.Loadable) : NewRow.fromRow r = .ok r.loaded := by
  unfold NewRow.fromRow
  rw [EventRow.tokens_of_fit h.tokens, SqlValue.getI64_integer,
    SqlValue.getOptString_of_textual h.costSource, SqlValue.getOptString_of_textual h.apiKeyId,
    SqlValue.getOptString_of_textual h.customerId]
  rfl

theorem fromRow_of_not_loadable {r : EventRow} (h : ¬ r.Loadable) :
    NewRow.fromRow r = .error .invalidColumnType := by
  unfold NewRow.fromRow
  by_cases htok : r.TokensFit
  · rw [EventRow.tokens_of_fit htok, SqlValue.getI64_integer]
    by_cases hcs : (jsonExtract r.metadata "cost_source").IsTextual
    · rw [SqlValue.getOptString_of_textual hcs]
      by_cases hk : (jsonExtract r.metadata "api_key_id").IsTextual
      · rw [SqlValue.getOptString_of_textual hk]
        have hc : ¬ (jsonExtract r.metadata "customer_id").IsTextual :=
          fun hc => h ⟨htok, hcs, hk, hc⟩
        rw [SqlValue.getOptString_error hc]
        rfl
      · rw [SqlValue.getOptString_error hk]
        rfl
    · rw [SqlValue.getOptString_error hcs]
      rfl
  · have hreal : r.tokens = .real := if_neg htok
    rw [hreal]
    rfl

@[simp] theorem loaded_dims (r : EventRow) : r.loaded.dims = r.scopeDims := rfl

/-- A loaded row contributes what the full scan counts for it. -/
@[simp] theorem loaded_contrib (r : EventRow) : r.loaded.contrib = r.contribution := by
  have hclient : ((jsonExtract r.metadata "cost_source").asText == some "client") =
      r.isClientCost := by
    unfold EventRow.isClientCost
    cases jsonExtract r.metadata "cost_source" <;> simp [SqlValue.asText]
  have hcost : r.loaded.costSource = (jsonExtract r.metadata "cost_source").asText := rfl
  unfold NewRow.contrib EventRow.contribution
  simp only [hcost, hclient]
  rfl

/-! ## Buckets -/

/-- Rolling state for one cache key. -/
structure Bucket where
  /-- Running usage of the contributions kept. -/
  total : Usage
  /-- Contributions keyed by `(received_at, rowid)`. -/
  items : OrdMap (Time ×ₗ Nat) Usage
  /-- Highest rowid folded in so far. -/
  seenRowid : Nat

namespace Bucket

/-- `Bucket::default`. -/
def default : Bucket := ⟨.default, .empty, 0⟩

/-- Fold one loaded row in. -/
def fold (project : String) (scope : Option LimitScope) (b : Bucket) (r : NewRow) : Bucket :=
  -- advance past every scanned row, matching or not
  let b := { b with seenRowid := if b.seenRowid < r.rowid then r.rowid else b.seenRowid }
  if r.project != project then b
  else if !scopeMatches scope r.dims then b
  else
    { b with
      total := b.total.plus r.contrib
      items := b.items.insert (toLex (r.receivedAt, r.rowid)) r.contrib }

/-- Fold in every stored row with a rowid past the last one seen. The whole batch is read before
the first row is folded. -/
def loadNew (rows : List EventRow) (project : String) (scope : Option LimitScope) (b : Bucket) :
    Except StoreError Bucket :=
  match (rows.filter fun r => decide (b.seenRowid < r.rowid)).mapM NewRow.fromRow with
  | .error e => .error (.sqlite e)
  | .ok news => .ok (news.foldl (fold project scope) b)

/-- Whether a contribution lies before the window start. -/
def isOld (since : Time) (k : Time ×ₗ Nat) : Bool := decide ((ofLex k).1 < since)

/-- Drop the contributions before the window start; an empty window snaps to zero. -/
def evictBefore (since : Time) (b : Bucket) : Bucket :=
  let (total, items) := b.items.popWhile (isOld since) (fun t v => t.minus v) b.total
  { b with total := if items.entries.isEmpty then .default else total, items }

/-- `UsageCache::usage` on one bucket: load, then evict. -/
def usage (rows : List EventRow) (project : String) (key : UsageKey) (now : Time) (b : Bucket) :
    Except StoreError Bucket :=
  (b.loadNew rows project key.2).map fun b => b.evictBefore (key.1.since now)

end Bucket

/-! ## The cache -/

/-- `UsageCache`: a bucket for each `(project, window, scope)`, empty until first read. -/
structure UsageCache where
  buckets : String × UsageKey → Bucket

namespace UsageCache

/-- The cache of a fresh process. -/
def empty : UsageCache := ⟨fun _ => .default⟩

/-- `UsageCache::reset`: forget everything. -/
def reset (_ : UsageCache) : UsageCache := empty

/-- Current rolling usage for one key, folding in what was committed since the last call. A load
that fails leaves the cache as it was. -/
def usage (rows : List EventRow) (project : String) (now : Time) (key : UsageKey)
    (c : UsageCache) : Except StoreError Usage × UsageCache :=
  match (c.buckets (project, key)).usage rows project key now with
  | .error e => (.error e, c)
  | .ok b => (.ok b.total, ⟨Function.update c.buckets (project, key) b⟩)

/-- The answer of a read is that of its own bucket. -/
theorem usage_fst (rows : List EventRow) (project : String) (now : Time) (key : UsageKey)
    (c : UsageCache) :
    (c.usage rows project now key).1 =
      ((c.buckets (project, key)).usage rows project key now).map Bucket.total := by
  unfold usage
  cases (c.buckets (project, key)).usage rows project key now <;> rfl

/-- A read touches its own bucket only. -/
theorem usage_buckets_of_ne {rows : List EventRow} {project : String} {now : Time} {key : UsageKey}
    {c : UsageCache} {k : String × UsageKey} (h : k ≠ (project, key)) :
    (c.usage rows project now key).2.buckets k = c.buckets k := by
  unfold usage
  split
  · rfl
  · exact Function.update_of_ne h _ _

/-- Reading usage through the cache, for one project at one instant. -/
def reader (rows : List EventRow) (project : String) (now : Time) :
    UsageReader UsageCache StoreError where
  read key c := c.usage rows project now key
  frame c k k' hne := by
    have hb : (c.usage rows project now k').2.buckets (project, k) = c.buckets (project, k) :=
      usage_buckets_of_ne fun h => hne (Prod.mk.inj h).2
    rw [usage_fst, usage_fst, hb]

end UsageCache

end LightTrack
