import LightTrack.Core.Clock
import LightTrack.Core.Event
import LightTrack.Otlp.Proto

/-! # GenAI spans as events

`map_span`: the GenAI semantic conventions, newest attribute name first, onto an `LlmEvent`.

The id of an event is made of the ids of its span.  What a span leaves open is taken from
the server: its clock, and a fresh id.
-/

namespace LightTrack.Otlp

/-- What mapping one span reads: the clock, twice, and a fresh id. -/
structure MapReadings where
  started : Time
  received : Time
  newId : String

/-- A refused span: a stable code and a reason. -/
structure SpanReject where
  code : String
  reason : String
  deriving DecidableEq

def PROVIDER_KEYS : List String :=
  ["gen_ai.provider.name", "gen_ai.system", "llm.provider", "llm.system", "ai.model.provider"]

def MODEL_KEYS : List String :=
  ["gen_ai.request.model", "gen_ai.response.model", "llm.model_name", "llm.request.model",
    "ai.model.id"]

def OPERATION_KEYS : List String :=
  ["gen_ai.operation.name", "llm.operation.name", "openinference.span.kind"]

def INPUT_TOKEN_KEYS : List String :=
  ["gen_ai.usage.input_tokens", "gen_ai.usage.prompt_tokens", "llm.token_count.prompt",
    "llm.usage.prompt_tokens", "ai.usage.promptTokens"]

def OUTPUT_TOKEN_KEYS : List String :=
  ["gen_ai.usage.output_tokens", "gen_ai.usage.completion_tokens", "llm.token_count.completion",
    "llm.usage.completion_tokens", "ai.usage.completionTokens"]

def CACHED_TOKEN_KEYS : List String :=
  ["gen_ai.usage.cached_input_tokens", "gen_ai.usage.cache_read_input_tokens",
    "llm.token_count.prompt_details.cache_read"]

def REASONING_TOKEN_KEYS : List String :=
  ["gen_ai.usage.reasoning_tokens", "gen_ai.usage.output_reasoning_tokens",
    "llm.token_count.completion_details.reasoning"]

def COST_KEYS : List String :=
  ["gen_ai.usage.cost", "gen_ai.usage.total_cost", "llm.usage.total_cost"]

def PROMPT_KEYS : List String :=
  ["gen_ai.input.messages", "gen_ai.prompt", "llm.prompts", "input.value"]

def COMPLETION_KEYS : List String :=
  ["gen_ai.output.messages", "gen_ai.completion", "llm.completions", "output.value"]

/-! ## Identity -/

/-- `nonempty`: trim, drop empties, and canonicalize through the shared id rule. -/
def nonempty (s : Option String) : Option String :=
  ((s.map strTrim).filter fun v => v != "").map normalizeTraceRef

/-- `event_id` -/
def eventId (fs : FlatSpan) (newId : String) : String :=
  match nonempty fs.span.traceId, nonempty fs.span.spanId with
  | some t, some s => t ++ "-" ++ s
  | none, some s => s
  | _, none => newId

/-- `from_nanos` -/
def fromNanos (nanos : Int) : Option Time := if Time.InUtc nanos then some nanos else none

/-! ## Fields -/

section Fields

variable (tx : Texts) (fs : FlatSpan)

/-- The text of the first attribute that is present. -/
def firstStr (keys : List String) : Option String := (fs.first keys).bind AnyValue.asStr

/-- `is_genai` -/
def isGenai : Bool :=
  fs.attrs.any fun kv =>
    strStartsWith kv.1 "gen_ai." || strStartsWith kv.1 "llm." || strStartsWith kv.1 "ai.model."

/-- `provider_of` -/
def providerOf : ProviderId :=
  match firstStr fs PROVIDER_KEYS with
  | some s => .new s
  | none => .new ""

/-- `exception_message` -/
def exceptionMessage : Option String :=
  (fs.span.events.find? fun e => e.name == some "exception").bind fun e =>
    (e.attributes.find? fun kv => kv.key == "exception.message").bind fun kv =>
      kv.value.bind AnyValue.asStr

/-- `status_of`: an error that reads as a timeout is one. -/
def statusOf : Status × Option String :=
  match fs.span.status.filter SpanStatus.isError with
  | none => (.success, none)
  | some st =>
    let errType := firstStr fs ["error.type", "exception.type"]
    let message :=
      ((st.message.filter fun m => m != "").or (exceptionMessage fs)).or errType
    let haystack := toAsciiLowercase (errType.getD "" ++ " " ++ message.getD "")
    (if strContains haystack "timeout" || strContains haystack "timed out" then .timeout else .error,
      message)

/-- An entry of `metadata.otel`, unless it is empty. -/
def put (k : String) (v : Option String) : List (String × Json) :=
  ((v.filter fun s => s != "").map fun s => (k, Json.str s)).toList

/-- `metadata_of`: provenance that has no column of its own. -/
def metadataOf : Json :=
  let otel :=
    ((fs.attr "gen_ai.response.finish_reasons").map fun v => ("finish_reasons", v.toJson tx)).toList ++
      put "system" (firstStr fs PROVIDER_KEYS) ++
      put "request_model" ((fs.attr "gen_ai.request.model").bind AnyValue.asStr) ++
      put "response_model" ((fs.attr "gen_ai.response.model").bind AnyValue.asStr) ++
      put "response_id" ((fs.attr "gen_ai.response.id").bind AnyValue.asStr) ++
      put "operation" (firstStr fs OPERATION_KEYS) ++
      put "scope" fs.scope ++
      put "service_name" ((fs.attr "service.name").bind AnyValue.asStr) ++
      put "span_name" fs.span.name
  .obj [("otel", .obj otel)]

theorem exists_otel_metadataOf : ∃ otel, metadataOf tx fs = .obj [("otel", .obj otel)] :=
  ⟨_, rfl⟩

/-- When the span says it started. -/
def startOf : Option Time := (fs.span.startTimeUnixNano.bind fun n => n.asI128 tx).bind fromNanos

/-- When the span says it ended. -/
def endOf : Option Time := (fs.span.endTimeUnixNano.bind fun n => n.asI128 tx).bind fromNanos

/-- The latency of a span with both ends, in milliseconds. -/
def latencyOf : Option UInt64 :=
  match startOf tx fs, endOf tx fs with
  | some s, some e => if s ≤ e then some (.ofNat ((e - s) / Time.millisecond).toNat) else none
  | _, _ => none

/-- The model, of a span that names one. -/
def modelOf : Option String := ((firstStr fs MODEL_KEYS).map strTrim).filter fun s => s != ""

/-- `map_span` -/
def mapSpan (r : MapReadings) (defaultProject : Option String) : Except SpanReject LlmEvent :=
  if !isGenai fs then
    .error ⟨"not_genai",
      "span carries no GenAI attributes (expected at least one `gen_ai.*` / `llm.*` key)"⟩
  else
    match modelOf fs with
    | none => .error ⟨"bad_request", "GenAI span has no model attribute (`gen_ai.request.model` / " ++
        "`gen_ai.response.model`)"⟩
    | some model => .ok
      { id := eventId fs r.newId
        projectId := ((firstStr fs ["lighttrack.project_id"]).or defaultProject).getD ""
        traceId := nonempty fs.span.traceId
        spanId := nonempty fs.span.spanId
        parentSpanId := nonempty fs.span.parentSpanId
        ts := (startOf tx fs).getD r.started
        receivedAt := r.received
        provider := providerOf fs
        model
        name := ((firstStr fs ["lighttrack.name"]).or fs.span.name).filter fun s => s != ""
        usage :=
          { input := ((fs.first INPUT_TOKEN_KEYS).bind (AnyValue.asU64 tx)).getD 0
            output := ((fs.first OUTPUT_TOKEN_KEYS).bind (AnyValue.asU64 tx)).getD 0
            cachedInput := (fs.first CACHED_TOKEN_KEYS).bind (AnyValue.asU64 tx)
            reasoning := (fs.first REASONING_TOKEN_KEYS).bind (AnyValue.asU64 tx) }
        costUsd := ((fs.first COST_KEYS).bind (AnyValue.asF64 tx)).filter fun c => decide (0 ≤ c)
        latencyMs := latencyOf tx fs
        status := (statusOf fs).1
        error := (statusOf fs).2
        input := (fs.first PROMPT_KEYS).map (AnyValue.toJson tx)
        output := (fs.first COMPLETION_KEYS).map (AnyValue.toJson tx)
        source := some "otlp"
        metadata := metadataOf tx fs }

/-- Whether a span becomes an event. -/
def maps : Bool := isGenai fs && (modelOf fs).isSome

variable {tx fs}

/-- Which spans map is a matter of their attributes. -/
theorem mapSpan_isOk_iff (r : MapReadings) (defaultProject : Option String) :
    (∃ ev, mapSpan tx fs r defaultProject = .ok ev) ↔ maps fs = true := by
  unfold mapSpan maps
  cases hgenai : isGenai fs with
  | false => simp
  | true =>
    cases hmodel : modelOf fs with
    | none => simp
    | some model => simp

/-- What an event takes from the ids and the start of its span. -/
structure MapsTo (tx : Texts) (fs : FlatSpan) (r : MapReadings) (ev : LlmEvent) : Prop where
  id : ev.id = eventId fs r.newId
  traceId : ev.traceId = nonempty fs.span.traceId
  spanId : ev.spanId = nonempty fs.span.spanId
  parentSpanId : ev.parentSpanId = nonempty fs.span.parentSpanId
  ts : ev.ts = (startOf tx fs).getD r.started
  metadata : ev.metadata = metadataOf tx fs

theorem mapSpan_mapsTo {r : MapReadings} {defaultProject : Option String} {ev : LlmEvent}
    (h : mapSpan tx fs r defaultProject = .ok ev) : MapsTo tx fs r ev := by
  unfold mapSpan at h
  cases hgenai : isGenai fs with
  | false =>
    rw [hgenai] at h
    cases h
  | true =>
    rw [hgenai] at h
    cases hmodel : modelOf fs with
    | none =>
      rw [hmodel] at h
      cases h
    | some model =>
      rw [hmodel] at h
      rw [← Except.ok.inj h]
      exact ⟨rfl, rfl, rfl, rfl, rfl, rfl⟩

end Fields

end LightTrack.Otlp
