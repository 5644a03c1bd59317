import LightTrack.Api.Redact
import LightTrack.Api.Validate
import LightTrack.Core.Pricing

/-! # Preparing an event

What both ingest doors do to one event before admission: give it its project, its arrival
time and the key behind it, validate it, redact it, price it, and settle its failure class.

* `prepareEvent_eq_ok_iff` : an event is refused by the validation policy or by nothing,
* `prepareEvent_call` : what identifies the call is the client's,
* `prepareEvent_costUsd` : the cost is the client's, or else the book's,
* `prepareEvent_get` : the accounting keys of the metadata.
-/

namespace LightTrack

/-- The capabilities of an API key. -/
inductive Scope where
  | ingest
  | read
  | manage
  deriving DecidableEq

/-- The wire string. -/
def Scope.asStr : Scope → String
  | ingest => "ingest"
  | read => "read"
  | manage => "manage"

/-- Who is behind a request. -/
inductive Principal where
  | dev
  | admin
  | project (projectId keyId : String) (scopes : List Scope)

namespace Principal

/-- `Principal::key_id`. -/
def keyId : Principal → Option String
  | project _ keyId _ => some keyId
  | admin | dev => none

end Principal

/-- `ensure_scope`. -/
def ensureScope (p : Principal) (want : Scope) : Except Rejection Unit :=
  match p with
  | .admin | .dev => .ok ()
  | .project _ keyId scopes =>
    if want ∈ scopes then .ok ()
    else .error ⟨.forbidden, "key '" ++ keyId ++ "' is not scoped for this call: needs '" ++
      want.asStr ++ "', has [" ++ String.intercalate ", " (scopes.map Scope.asStr) ++
      "]. Mint a key with it: POST /v1/projects/:id/keys \x7b\"scopes\": [\"" ++ want.asStr ++
      "\"]\x7d"⟩

/-- `DEV_DEFAULT_PROJECT`. -/
def DEV_DEFAULT_PROJECT : String := "default"

/-- `NO_PROJECT_MSG`. -/
def NO_PROJECT_MSG : String :=
  "project_id is required: set it on the event (SDKs read LIGHTTRACK_PROJECT), or present a " ++
    "project API key — POST /v1/projects then POST /v1/projects/:id/keys — which derives the " ++
    "project server-side"

/-- `resolve_ingest_project`: a project key forces its own project. -/
def resolveIngestProject (p : Principal) (bodyProject : String) : Except Rejection String :=
  match p with
  | .project projectId _ _ => (ensureScope p .ingest).map fun _ => projectId
  | .dev => .ok (if isBlank bodyProject then DEV_DEFAULT_PROJECT else bodyProject)
  | .admin =>
    if isBlank bodyProject then .error ⟨.badRequest, NO_PROJECT_MSG⟩ else .ok bodyProject

/-! ## The steps -/

/-- `normalize_ids`. -/
def normalizeIds (ev : LlmEvent) : LlmEvent :=
  { ev with
    traceId := ev.traceId.map normalizeTraceRef
    spanId := ev.spanId.map normalizeTraceRef
    parentSpanId := ev.parentSpanId.map normalizeTraceRef }

/-- `metadata_set`: a scalar or an array is the client's own and is left alone. -/
def metadataSet (ev : LlmEvent) (key : String) (value : Json) : LlmEvent :=
  match ev.metadata with
  | .obj fields => { ev with metadata := .obj (Json.insertKey key value fields) }
  | .null => { ev with metadata := .obj [(key, value)] }
  | _ => ev

/-- `stamp_api_key`. -/
def stampApiKey (ev : LlmEvent) (keyId : Option String) : LlmEvent :=
  match keyId with
  | some id => metadataSet ev "api_key_id" (.str id)
  | none =>
    match ev.metadata with
    | .obj fields => { ev with metadata := .obj (Json.removeKey "api_key_id" fields) }
    | _ => ev

/-- `mark_cost_source`. -/
def markCostSource (ev : LlmEvent) (clientSupplied : Bool) : LlmEvent :=
  if ev.costUsd.isNone then ev
  else metadataSet ev "cost_source" (.str (if clientSupplied then "client" else "book"))

/-- `normalize_failure_class`. -/
def normalizeFailureClass (ev : LlmEvent) : LlmEvent :=
  let failed := decide (ev.status ≠ .success)
  let canonical := ((ev.metadata.getStr FAILURE_CLASS_KEY).map FailureClass.fromWire).getD .unknown
  match ev.metadata with
  | .obj fields =>
    { ev with
      metadata := .obj (if failed then
        Json.insertKey FAILURE_CLASS_KEY (.str canonical.asStr) fields
        else Json.removeKey FAILURE_CLASS_KEY fields) }
  | .null =>
    if failed then { ev with metadata := .obj [(FAILURE_CLASS_KEY, .str canonical.asStr)] } else ev
  | _ => ev

/-- The part of the service's state that prepares events. -/
structure IngestConfig where
  policy : IngestPolicy
  redact : Redactor
  prices : PriceBook

/-- The event in its project, arrived now, with an id. -/
def receive (now : Time) (newId pid : String) (ev : LlmEvent) : LlmEvent :=
  { ev with
    projectId := pid
    receivedAt := now
    id := if isBlank ev.id then newId else ev.id }

/-- The event as it is validated. -/
def arrive (now : Time) (newId pid : String) (keyId : Option String) (ev : LlmEvent) : LlmEvent :=
  stampApiKey (normalizeIds (receive now newId pid ev)) keyId

/-- The redacted event, priced. -/
def priceEvent (prices : PriceBook) (ev : LlmEvent) : LlmEvent :=
  markCostSource (ev.ensureCost prices) ev.costUsd.isSome

/-- `prepare_event`. `newId` is the id minted if the event has none. -/
def prepareEvent (st : IngestConfig) (now : Time) (newId pid : String) (keyId : Option String)
    (persistence : Redaction) (ev : LlmEvent) : Except Rejection LlmEvent := do
  let ev := arrive now newId pid keyId ev
  st.policy.validate ev now
  let ev := (st.redact.applyClass ev persistence).1
  return normalizeFailureClass (priceEvent st.prices ev)

/-! ## What each step keeps -/

theorem metadataSet_sameCall (ev : LlmEvent) (key : String) (value : Json) :
    ev.SameCall (metadataSet ev key value) := by
  unfold metadataSet
  split <;> exact ⟨rfl, rfl, rfl, rfl, rfl, rfl, rfl, rfl, rfl⟩

/-- Metadata that can hold members: an object, or nothing yet. -/
def Json.canHold (j : Json) : Bool := j.isObject || j.isNull

theorem metadataSet_get_self (ev : LlmEvent) (key : String) (value : Json) :
    (metadataSet ev key value).metadata.get key = if ev.metadata.canHold then some value else none := by
  unfold metadataSet
  cases hmeta : ev.metadata with
  | obj fields => exact Json.lookup_insertKey_self key value fields
  | null => exact (Json.lookup_cons key (key, value) []).trans (if_pos rfl)
  | _ =>
    simp only [hmeta]
    rfl

theorem metadataSet_get_of_ne (ev : LlmEvent) {key key' : String} (h : key' ≠ key) (value : Json) :
    (metadataSet ev key value).metadata.get key' = ev.metadata.get key' := by
  unfold metadataSet
  cases hmeta : ev.metadata with
  | obj fields => exact Json.lookup_insertKey_of_ne h value fields
  | null => exact (Json.lookup_cons key' (key, value) []).trans (if_neg h.symm)
  | _ => simp only [hmeta]

theorem stampApiKey_sameCall (ev : LlmEvent) (keyId : Option String) :
    ev.SameCall (stampApiKey ev keyId) := by
  unfold stampApiKey
  cases keyId with
  | some id => exact metadataSet_sameCall ev _ _
  | none =>
    simp only
    split <;> exact ⟨rfl, rfl, rfl, rfl, rfl, rfl, rfl, rfl, rfl⟩

/-- The stamp is the principal's key, where the metadata can hold one. -/
theorem stampApiKey_get (ev : LlmEvent) (keyId : Option String) :
    (stampApiKey ev keyId).metadata.get "api_key_id" =
      if ev.metadata.canHold then keyId.map Json.str else none := by
  unfold stampApiKey
  cases keyId with
  | some id => exact metadataSet_get_self ev "api_key_id" (.str id)
  | none =>
    rw [Option.map_none, ite_self]
    cases hmeta : ev.metadata with
    | obj fields => exact Json.lookup_removeKey_self "api_key_id" fields
    | _ =>
      simp only [hmeta]
      rfl

theorem stampApiKey_get_of_ne (ev : LlmEvent) (keyId : Option String) {key : String}
    (h : key ≠ "api_key_id") : (stampApiKey ev keyId).metadata.get key = ev.metadata.get key := by
  unfold stampApiKey
  cases keyId with
  | some id => exact metadataSet_get_of_ne ev h _
  | none =>
    cases hmeta : ev.metadata with
    | obj fields => exact Json.lookup_removeKey_of_ne h fields
    | _ => simp only [hmeta]

theorem markCostSource_get_of_ne (ev : LlmEvent) (clientSupplied : Bool) {key : String}
    (h : key ≠ "cost_source") :
    (markCostSource ev clientSupplied).metadata.get key = ev.metadata.get key := by
  unfold markCostSource
  split_ifs
  · rfl
  · exact metadataSet_get_of_ne ev h _
  · exact metadataSet_get_of_ne ev h _

theorem markCostSource_sameCall (ev : LlmEvent) (clientSupplied : Bool) :
    ev.SameCall (markCostSource ev clientSupplied) := by
  unfold markCostSource
  split
  · exact .refl ev
  · exact metadataSet_sameCall ev _ _

theorem normalizeFailureClass_sameCall (ev : LlmEvent) :
    ev.SameCall (normalizeFailureClass ev) := by
  unfold normalizeFailureClass
  simp only
  split
  · exact ⟨rfl, rfl, rfl, rfl, rfl, rfl, rfl, rfl, rfl⟩
  · split <;> exact ⟨rfl, rfl, rfl, rfl, rfl, rfl, rfl, rfl, rfl⟩
  · exact .refl ev

theorem normalizeFailureClass_get_of_ne (ev : LlmEvent) {key : String}
    (h : key ≠ FAILURE_CLASS_KEY) :
    (normalizeFailureClass ev).metadata.get key = ev.metadata.get key := by
  unfold normalizeFailureClass
  simp only
  cases hmeta : ev.metadata with
  | obj fields =>
    simp only
    split_ifs
    · exact Json.lookup_insertKey_of_ne h _ fields
    · exact Json.lookup_removeKey_of_ne h fields
  | null =>
    simp only
    split_ifs
    · exact (Json.lookup_cons key _ []).trans (if_neg h.symm)
    · rw [hmeta]
  | _ => simp only [hmeta]

theorem ensureCost_metadata (ev : LlmEvent) (prices : PriceBook) :
    (ev.ensureCost prices).metadata = ev.metadata := by
  unfold LlmEvent.ensureCost
  split <;> rfl

/-! ## The whole preparation -/

section prepareEvent

variable {st : IngestConfig} {now : Time} {newId pid : String} {keyId : Option String}
  {persistence : Redaction} {ev p : LlmEvent}

/-- The redacted event that is priced. -/
def redacted (st : IngestConfig) (now : Time) (newId pid : String) (keyId : Option String)
    (persistence : Redaction) (ev : LlmEvent) : LlmEvent :=
  (st.redact.applyClass (arrive now newId pid keyId ev) persistence).1

/-- An event is refused by the validation policy or by nothing. -/
theorem prepareEvent_eq_ok_iff :
    prepareEvent st now newId pid keyId persistence ev = .ok p ↔
      st.policy.validate (arrive now newId pid keyId ev) now = .ok () ∧
        p = normalizeFailureClass
          (priceEvent st.prices (redacted st now newId pid keyId persistence ev)) := by
  show (st.policy.validate (arrive now newId pid keyId ev) now >>= fun _ => Except.ok
    (normalizeFailureClass (priceEvent st.prices (redacted st now newId pid keyId persistence ev)))) =
      .ok p ↔ _
  cases st.policy.validate (arrive now newId pid keyId ev) now with
  | error e => simp [bind, Except.bind]
  | ok u => simp [bind, Except.bind, eq_comm]

theorem normalizeIds_sameCall (ev : LlmEvent) : ev.SameCall (normalizeIds ev) :=
  ⟨rfl, rfl, rfl, rfl, rfl, rfl, rfl, rfl, rfl⟩

theorem redacted_sameCall (st : IngestConfig) (now : Time) (newId pid : String)
    (keyId : Option String) (persistence : Redaction) (ev : LlmEvent) :
    (receive now newId pid ev).SameCall (redacted st now newId pid keyId persistence ev) :=
  ((normalizeIds_sameCall _).trans (stampApiKey_sameCall _ keyId)).trans
    (st.redact.applyClass_sameCall (arrive now newId pid keyId ev) persistence)

theorem priced_sameCall (prices : PriceBook) (ev : LlmEvent) :
    (ev.ensureCost prices).SameCall (normalizeFailureClass (priceEvent prices ev)) :=
  (markCostSource_sameCall (ev.ensureCost prices) ev.costUsd.isSome).trans
    (normalizeFailureClass_sameCall _)

theorem ensureCost_costUsd (prices : PriceBook) (ev : LlmEvent) :
    (ev.ensureCost prices).costUsd =
      ev.costUsd.or (prices.costUsdMode ev.provider.asStr ev.model ev.usage ev.pricingMode) := by
  unfold LlmEvent.ensureCost
  cases hcost : ev.costUsd with
  | some c => exact hcost
  | none => rfl

/-- Pricing changes the cost only. -/
theorem ensureCost_call (prices : PriceBook) (ev : LlmEvent) :
    (ev.ensureCost prices).id = ev.id ∧ (ev.ensureCost prices).projectId = ev.projectId ∧
      (ev.ensureCost prices).ts = ev.ts ∧ (ev.ensureCost prices).receivedAt = ev.receivedAt ∧
      (ev.ensureCost prices).provider = ev.provider ∧ (ev.ensureCost prices).model = ev.model ∧
      (ev.ensureCost prices).usage = ev.usage := by
  unfold LlmEvent.ensureCost
  split <;> exact ⟨rfl, rfl, rfl, rfl, rfl, rfl, rfl⟩

/-- What identifies a call is the client's, but for the project it is filed under. -/
theorem prepareEvent_call (h : prepareEvent st now newId pid keyId persistence ev = .ok p) :
    p.id = (if isBlank ev.id then newId else ev.id) ∧ p.projectId = pid ∧ p.ts = ev.ts ∧
      p.receivedAt = now ∧ p.provider = ev.provider ∧ p.model = ev.model ∧ p.usage = ev.usage := by
  rcases prepareEvent_eq_ok_iff.1 h with ⟨-, hp⟩
  have hredact := redacted_sameCall st now newId pid keyId persistence ev
  have hpriced := priced_sameCall st.prices (redacted st now newId pid keyId persistence ev)
  rw [← hp] at hpriced
  obtain ⟨hid, hproject, hts, harrived, hprovider, hmodel, husage⟩ :=
    ensureCost_call st.prices (redacted st now newId pid keyId persistence ev)
  refine ⟨?_, ?_, ?_, ?_, ?_, ?_, ?_⟩
  · rw [hpriced.id, hid, hredact.id, receive]
  · rw [hpriced.projectId, hproject, hredact.projectId, receive]
  · rw [hpriced.ts, hts, hredact.ts, receive]
  · rw [hpriced.receivedAt, harrived, hredact.receivedAt, receive]
  · rw [hpriced.provider, hprovider, hredact.provider, receive]
  · rw [hpriced.model, hmodel, hredact.model, receive]
  · rw [hpriced.usage, husage, hredact.usage, receive]

/-- The price the book has for the redacted event. -/
def bookPrice (st : IngestConfig) (now : Time) (newId pid : String) (keyId : Option String)
    (persistence : Redaction) (ev : LlmEvent) : Option ℚ :=
  st.prices.costUsdMode ev.provider.asStr ev.model ev.usage
    (redacted st now newId pid keyId persistence ev).pricingMode

/-- The cost is the client's, or else the book's. -/
theorem prepareEvent_costUsd (h : prepareEvent st now newId pid keyId persistence ev = .ok p) :
    p.costUsd = ev.costUsd.or (bookPrice st now newId pid keyId persistence ev) := by
  rcases prepareEvent_eq_ok_iff.1 h with ⟨-, hp⟩
  have hredact := redacted_sameCall st now newId pid keyId persistence ev
  have hpriced := priced_sameCall st.prices (redacted st now newId pid keyId persistence ev)
  rw [← hp] at hpriced
  rw [hpriced.costUsd, ensureCost_costUsd, hredact.costUsd, hredact.provider, hredact.model,
    hredact.usage]
  simp only [receive, bookPrice]

theorem normalizeIds_receive_metadata (now : Time) (newId pid : String) (ev : LlmEvent) :
    (normalizeIds (receive now newId pid ev)).metadata = ev.metadata := by
  unfold normalizeIds receive
  rfl

/-- The key an event arrives under is the principal's, where the metadata can hold one. -/
theorem arrive_get_apiKeyId (now : Time) (newId pid : String) (keyId : Option String)
    (ev : LlmEvent) :
    (arrive now newId pid keyId ev).metadata.get "api_key_id" =
      if ev.metadata.canHold then keyId.map Json.str else none := by
  rw [arrive, stampApiKey_get, normalizeIds_receive_metadata]

theorem arrive_get_of_ne (now : Time) (newId pid : String) (keyId : Option String)
    (ev : LlmEvent) {key : String} (h : key ≠ "api_key_id") :
    (arrive now newId pid keyId ev).metadata.get key = ev.metadata.get key := by
  rw [arrive, stampApiKey_get_of_ne _ _ h, normalizeIds_receive_metadata]

/-- An accounting key other than the cost source reads back as it arrived, unless the scrub
panics. -/
theorem prepareEvent_get (h : prepareEvent st now newId pid keyId persistence ev = .ok p)
    {key : String} (hkey : IsAccountingKey key) (hsource : key ≠ "cost_source")
    (hclass : key ≠ FAILURE_CLASS_KEY) :
    p.metadata.get key =
      if st.redact.Panics (arrive now newId pid keyId ev) persistence then none
      else (arrive now newId pid keyId ev).metadata.get key := by
  rcases prepareEvent_eq_ok_iff.1 h with ⟨-, rfl⟩
  rw [normalizeFailureClass_get_of_ne _ hclass, priceEvent, markCostSource_get_of_ne _ _ hsource,
    ensureCost_metadata, redacted, st.redact.applyClass_get _ persistence hkey]

end prepareEvent

end LightTrack
