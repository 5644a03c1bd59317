import LightTrack.Api.Attribution
import LightTrack.Store.BatchRuns

/-! # The ingest doors

`POST /v1/events` and `POST /v1/events/batch`: resolve the project, prepare each event, ask the
store to admit and insert it, and answer.  A taken id is answered from the stored event when
the two are the same logical event.

The rejection ledger is the service's own memory of what limits turned away; alert delivery
and error-spike detection are side effects outside the model.
-/

namespace LightTrack

/-! ## Requests -/

/-- The body of an event. The server chooses an id and a timestamp that are absent. -/
structure IngestBody where
  id : Option String := none
  projectId : String := ""
  traceId : Option String := none
  spanId : Option String := none
  parentSpanId : Option String := none
  ts : Option Time := none
  provider : ProviderId
  model : String
  name : Option String := none
  usage : TokenUsage := { input := 0, output := 0 }
  costUsd : Option ℚ := none
  latencyMs : Option UInt64 := none
  status : Status := .success
  error : Option String := none
  input : Option Json := none
  output : Option Json := none
  tags : List String := []
  source : Option String := none
  metadata : Json := .null

/-- The event a body parses to at `now`. -/
def IngestBody.toEvent (b : IngestBody) (now : Time) (newId : String) : LlmEvent where
  id := b.id.getD newId
  projectId := b.projectId
  traceId := b.traceId
  spanId := b.spanId
  parentSpanId := b.parentSpanId
  ts := b.ts.getD now
  receivedAt := now
  provider := b.provider
  model := b.model
  name := b.name
  usage := b.usage
  costUsd := b.costUsd
  latencyMs := b.latencyMs
  status := b.status
  error := b.error
  input := b.input
  output := b.output
  tags := b.tags
  source := b.source
  metadata := b.metadata

/-- One event a principal submits. -/
structure IngestRequest where
  principal : Principal
  body : IngestBody

/-- The part of a project row that ingest reads. -/
structure ProjectPolicy where
  redaction : Redaction := .none
  enabled : Bool := true

/-- What the service is configured with when it handles a request. -/
structure IngestEnv where
  config : IngestConfig
  policyFor : String → ProjectPolicy
  maxBatch : ℕ := 500

/-- What handling one event reads: the clock when the body is parsed, when the event is prepared,
when the store admits it and when the outcome is recorded, and a fresh id. -/
structure Readings where
  parsed : Time
  prepared : Time
  stored : Time
  settled : Time
  newId : String

/-- `disabled_project_msg`. -/
def disabledProjectMsg (pid : String) : String :=
  "project '" ++ pid ++ "' is disabled: ingest refused. Re-enable it with PUT /v1/projects/" ++ pid ++
    " \x7b\"enabled\": true\x7d"

/-- The event as it would be stored in project `pid`. -/
def prepareFor (env : IngestEnv) (r : Readings) (principal : Principal) (body : IngestBody)
    (pid : String) : Except Rejection LlmEvent :=
  let policy := env.policyFor pid
  if policy.enabled then
    prepareEvent env.config r.prepared r.newId pid principal.keyId policy.redaction
      (body.toEvent r.parsed r.newId)
  else .error ⟨.projectDisabled, disabledProjectMsg pid⟩

/-- What the single-event door does before admission. -/
def ingestDoor (env : IngestEnv) (r : Readings) (req : IngestRequest) :
    Except Rejection LlmEvent :=
  match resolveIngestProject req.principal req.body.projectId with
  | .error e => .error e
  | .ok pid => prepareFor env r req.principal req.body pid

/-- What the batch door does with an item before admission. Its key was checked for the whole
request, so only a missing project is left to fail. -/
def batchDoor (env : IngestEnv) (r : Readings) (req : IngestRequest) :
    Except Rejection LlmEvent :=
  match resolveIngestProject req.principal req.body.projectId with
  | .error _ => .error ⟨.badRequest, NO_PROJECT_MSG⟩
  | .ok pid => prepareFor env r req.principal req.body pid

/-! ## The rejection ledger -/

/-- What a rejection is counted under. -/
abbrev RejectionKey := String × LimitMetric × LimitWindow × Option LimitScope

/-- One rejection bucket. -/
structure RejectionEntry where
  count : ℕ
  estCostUsd : ℚ
  firstTs : Time
  lastTs : Time

/-- `RejectionLedger`. -/
structure RejectionLedger where
  entries : List (RejectionKey × RejectionEntry) := []
  lastPrune : Int := 0

namespace RejectionLedger

/-- `TTL_HOURS`. -/
def ttl : Int := 24 * 3600 * Time.second

/-- `RejectionLedger::prune`. -/
def prune (l : RejectionLedger) (now : Time) : RejectionLedger :=
  { l with entries := l.entries.filter fun e => decide (now - e.2.lastTs < ttl) }

/-- `RejectionLedger::record`; the hot path prunes at most once a minute. -/
def record (l : RejectionLedger) (key : RejectionKey) (cost : ℚ) (now : Time) : RejectionLedger :=
  let nowS := now / Time.second
  let l := if 60 ≤ nowS - l.lastPrune then { l.prune now with lastPrune := nowS } else l
  let e := (l.entries.lookup key).getD { count := 0, estCostUsd := 0, firstTs := now, lastTs := now }
  { l with
    entries := (key, { e with count := e.count + 1, estCostUsd := e.estCostUsd + cost, lastTs := now })
      :: l.entries.filter fun kv => kv.1 ≠ key }

end RejectionLedger

/-- `record_rejection`: once for every status that turned the event away. -/
def recordRejection (l : RejectionLedger) (ev : LlmEvent) (statuses : List LimitStatus)
    (now : Time) : RejectionLedger :=
  (statuses.filter fun s => s.rejectsIngest || s.shedding).foldl
    (fun l s => l.record (s.projectId, s.metric, s.window, s.scope) (ev.costUsd.getD 0) now) l

/-- `on_admission`: the breached statuses, and the ledger. -/
def onAdmission (l : RejectionLedger) (ev : LlmEvent) (a : Admission) (now : Time) :
    List LimitStatus × RejectionLedger :=
  (a.statuses.filter LimitStatus.breached,
    if a.admitted then l else recordRejection l ev a.statuses now)

/-! ## Proximity -/

/-- How close a project is to its caps, and which rule binds. -/
structure Proximity where
  usageRatio : Option (WithTop ℚ) := none
  shedFraction : Option ℚ := none
  retryAfterSecs : Option ℕ := none
  bindingScope : Option LimitScope := none
  bindingRule : Option String := none

/-- `Proximity::of`: the worst ratio, the strongest shed, and the rule of the worst ratio. -/
def Proximity.of (statuses : List LimitStatus) : Proximity :=
  let binding := statuses.foldl (fun best s =>
    match best with
    | some b => if s.ratio ≤ b.ratio then some b else some s
    | none => some s) (none : Option LimitStatus)
  { usageRatio := (statuses.map LimitStatus.ratio).max?
    shedFraction := (statuses.map LimitStatus.shedFraction).max?.filter (0 < ·)
    bindingScope := binding.bind LimitStatus.scope
    bindingRule := binding.map LimitStatus.ruleId }

/-- `Proximity::merge`: the worst on every axis. -/
def Proximity.merge (p q : Proximity) : Proximity :=
  let usageRatio := [p.usageRatio, q.usageRatio].reduceOption.max?
  let replaces := q.usageRatio.isSome && decide (q.usageRatio = usageRatio)
  { usageRatio
    shedFraction := [p.shedFraction, q.shedFraction].reduceOption.max?
    retryAfterSecs := [p.retryAfterSecs, q.retryAfterSecs].reduceOption.max?
    bindingScope := if replaces then q.bindingScope else p.bindingScope
    bindingRule := if replaces then q.bindingRule else p.bindingRule }

/-! ## The single-event door -/

/-- `same_logical_event`. -/
def sameLogicalEvent (stored incoming : LlmEvent) : Bool :=
  stored.projectId == incoming.projectId && stored.ts == incoming.ts &&
    decide (stored.provider = incoming.provider) && stored.model == incoming.model &&
    stored.usage.input == incoming.usage.input && stored.usage.output == incoming.usage.output

/-- `IngestResponse`. -/
structure IngestResponse where
  id : String
  projectId : String
  costUsd : Option ℚ
  ts : Time
  breached : List LimitStatus
  duplicate : Bool
  proximity : Proximity

/-- Why an event was not acknowledged. -/
inductive IngestError where
  | refused (r : Rejection)
  | rateLimited (proximity : Proximity)
  | store (e : StoreError)

/-- The store and the rejection ledger. -/
structure Service where
  store : SqliteStore
  rejections : RejectionLedger

/-- The refusal of an id that another event holds. -/
def conflictRejection (id : String) : Rejection :=
  ⟨.conflict, "event '" ++ id ++ "' already exists with a different payload"⟩

/-- The stored event an event with a taken id repeats. -/
def replayOf (t : EventTable) (ev : LlmEvent) : Option LlmEvent :=
  (t.get ev.projectId ev.id).filter fun stored => sameLogicalEvent stored ev

/-- `post_event`. -/
def postEvent (env : IngestEnv) (r : Readings) (req : IngestRequest) (s : Service) :
    Except IngestError IngestResponse × Service :=
  match ingestDoor env r req with
  | .error e => (.error (.refused e), s)
  | .ok ev =>
    match s.store.insertEventChecked r.stored ev with
    | (.error (.conflict _), store) =>
      (match replayOf store.events ev with
        | some stored => .ok
          { id := ev.id, projectId := ev.projectId, costUsd := stored.costUsd, ts := stored.ts
            breached := [], duplicate := true, proximity := {} }
        | none => .error (.refused (conflictRejection ev.id)), { s with store })
    | (.error e, store) => (.error (.store e), { s with store })
    | (.ok a, store) =>
      let (breached, rejections) := onAdmission s.rejections ev a r.settled
      let proximity := Proximity.of a.statuses
      (if a.admitted then .ok
          { id := ev.id, projectId := ev.projectId, costUsd := ev.costUsd, ts := ev.ts, breached
            duplicate := false, proximity }
        else .error (.rateLimited { proximity with retryAfterSecs := a.retryAfterSecs }),
        { store, rejections })

/-! ## The batch door -/

/-- `BatchItem`. -/
inductive BatchItem where
  | accepted (index : ℕ) (id : String) (costUsd : Option ℚ) (duplicate : Bool)
      (breached : List LimitStatus)
  | rejected (index : ℕ) (id : String) (breached : List LimitStatus)
      (retryAfterSecs : Option ℕ) (shed : Bool)
  | invalid (index : ℕ) (id : Option String) (r : Rejection)

/-- One item's answer, from the store's. -/
def batchAnswer (t : EventTable) (index : ℕ) (ev : LlmEvent) (r : Readings)
    (admission : Except StoreError Admission) (l : RejectionLedger) :
    BatchItem × RejectionLedger × Proximity :=
  match admission with
  | .ok a =>
    let (breached, l) := onAdmission l ev a r.settled
    let proximity := Proximity.of a.statuses
    if a.admitted then (.accepted index ev.id ev.costUsd false breached, l, proximity)
    else (.rejected index ev.id breached a.retryAfterSecs a.shed, l,
      { proximity with retryAfterSecs := a.retryAfterSecs })
  | .error (.conflict _) =>
    match replayOf t ev with
    | some stored => (.accepted index ev.id stored.costUsd true [], l, {})
    | none => (.invalid index (some ev.id) (conflictRejection ev.id), l, {})
  | .error _ =>
    (.invalid index (some ev.id) ⟨.internal, "store error (see server logs)"⟩, l, {})

/-- One item of a batch, with what handling it reads. -/
structure BatchEntry where
  body : IngestBody
  readings : Readings

/-- The answers of a batch, in order: an invalid item keeps the one preparation gave it, the others
take the store's answers one by one. -/
def batchAnswers (t : EventTable) :
    List ((ℕ × BatchEntry) × Except Rejection LlmEvent) → List (Except StoreError Admission) →
      RejectionLedger → Proximity → List BatchItem × RejectionLedger × Proximity
  | [], _, l, p => ([], l, p)
  | ((i, e), .error r) :: items, admissions, l, p =>
    let (rest, l, p) := batchAnswers t items admissions l p
    (.invalid i (some (e.body.id.getD e.readings.newId) |>.filter (· != "")) r :: rest, l, p)
  | ((i, e), .ok ev) :: items, admission :: admissions, l, p =>
    let (item, l, q) := batchAnswer t i ev e.readings admission l
    let (rest, l, p) := batchAnswers t items admissions l (p.merge q)
    (item :: rest, l, p)
  -- the store answers every item it is given
  | (_, .ok _) :: items, [], l, p => batchAnswers t items [] l p

/-- The items of a batch, prepared. -/
def prepareBatch (env : IngestEnv) (principal : Principal) (entries : List BatchEntry) :
    List ((ℕ × BatchEntry) × Except Rejection LlmEvent) :=
  entries.zipIdx.map fun e =>
    ((e.2, e.1), batchDoor env e.1.readings { principal, body := e.1.body })

/-- What the store is given: the valid items, each with its clock reading. -/
def validItems (prepared : List ((ℕ × BatchEntry) × Except Rejection LlmEvent)) :
    List (Time × LlmEvent) :=
  prepared.filterMap fun p =>
    match p.2 with
    | .ok ev => some (p.1.2.readings.stored, ev)
    | .error _ => none

/-- `post_batch`. -/
def postBatch (env : IngestEnv) (principal : Principal) (entries : List BatchEntry) (tx : BatchTx)
    (s : Service) : Except Rejection (List BatchItem × Proximity) × Service :=
  match ensureScope principal .ingest with
  | .error r => (.error r, s)
  | .ok _ =>
    if entries.isEmpty then (.error ⟨.badRequest, "batch must contain at least one event"⟩, s)
    else if env.maxBatch < entries.length then
      (.error ⟨.badRequest, "batch of " ++ toString entries.length ++ " events exceeds the limit of " ++
        toString env.maxBatch ++ " (see LIGHTTRACK_MAX_BATCH)"⟩, s)
    else
      let prepared := prepareBatch env principal entries
      let valid := validItems prepared
      let (admissions, store) :=
        if valid.isEmpty then ([], s.store) else s.store.insertEventsChecked valid tx
      let (items, rejections, proximity) :=
        batchAnswers store.events prepared admissions s.rejections {}
      (.ok (items, proximity), { store, rejections })

/-! ## Runs -/

/-- One thing that happens to the service: a request at one of the doors, or any other call on the
store. -/
inductive ServiceOp where
  | postEvent (env : IngestEnv) (r : Readings) (req : IngestRequest)
  | postBatch (env : IngestEnv) (principal : Principal) (entries : List BatchEntry) (tx : BatchTx)
  | store (now : Time) (op : Op)

namespace Service

/-- Let one thing happen. -/
def exec (op : ServiceOp) (s : Service) : Service :=
  match op with
  | .postEvent env r req => (LightTrack.postEvent env r req s).2
  | .postBatch env principal entries tx => (LightTrack.postBatch env principal entries tx s).2
  | .store now op => { s with store := (SqliteStore.exec now op s.store).state }

/-- One step, at any clock readings. -/
def Step (s : Service) (op : ServiceOp) (s' : Service) : Prop := s' = exec op s

end Service

end LightTrack
