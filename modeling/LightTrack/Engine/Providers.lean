import LightTrack.Core.Json
import LightTrack.Core.Pricing
import LightTrack.Core.Provider
import LightTrack.Core.Text
import LightTrack.Engine.Retry
import LightTrack.Engine.Sample

/-! # Candidate outputs across providers

Every way to generate comes down to one dispatch, which is retried; a provider that rejects a
request is asked once more with less.  An outcome carries two stamps: whether its schema was
enforced, and how reproducible the call was.

* `generateOnce`, `generate`, `generateChat`, `generateDeterministic` : the code,
* `Once` : what one dispatch can come to,
* `climb_last` : a ladder returns what its last call came to,
* `stamp_truthful_iff` : when the stamps say what was sent.
-/

namespace LightTrack.Engine

/-! ## Requests to a model

A conversation as a generation input, and how hard the model should think about it.  What a
provider cannot honour is an error before the request.
-/

/-! ## Effort -/

/-- `Effort` -/
inductive Effort where
  | low
  | medium
  | high
  | xHigh
  | max
  deriving DecidableEq

namespace Effort

/-- `parse` -/
def parse (s : String) : Option Effort :=
  if s = "low" then some low
  else if s = "medium" then some medium
  else if s = "high" then some high
  else if s = "xhigh" then some xHigh
  else if s = "max" then some max
  else none

/-- `as_str` -/
def asStr : Effort → String
  | low => "low"
  | medium => "medium"
  | high => "high"
  | xHigh => "xhigh"
  | max => "max"

/-- Every level is read back from its word. -/
theorem parse_asStr (e : Effort) : parse e.asStr = some e := by
  cases e <;> rfl

end Effort

/-- `str::rsplit_once` at a one-character separator. -/
def rsplitOnce (sep : Char) (s : String) : Option (String × String) :=
  let rev := s.toList.reverse
  match rev.dropWhile (· != sep) with
  | [] => none
  | _ :: before =>
    some (String.ofList before.reverse, String.ofList (rev.takeWhile (· != sep)).reverse)

/-- `split_effort`: only a known level is split off. -/
def splitEffort (spec : String) : String × Option Effort :=
  match rsplitOnce '@' spec with
  | some (model, suffix) =>
    match Effort.parse suffix with
    | some effort => (model, some effort)
    | none => (spec, none)
  | none => (spec, none)

/-! ## Conversations -/

/-- `ChatRole` -/
inductive ChatRole where
  | user
  | assistant
  | tool
  deriving DecidableEq

/-- `ChatTurn` -/
structure ChatTurn where
  role : ChatRole
  content : String
  toolCalls : Option Json := none
  toolCallId : Option String := none

/-- `ChatTurn::user` -/
def ChatTurn.user (content : String) : ChatTurn := { role := .user, content }

/-- `ChatRequest` -/
structure ChatRequest where
  system : Option String := none
  turns : List ChatTurn := []
  schema : Option Json := none
  tools : Option Json := none
  toolChoice : Option Json := none

namespace ChatRequest

/-- `single`: one user turn. -/
def single (system : Option String) (input : String) (schema : Option Json) : ChatRequest :=
  { system, turns := [.user input], schema }

/-- `has_tools` -/
def hasTools (req : ChatRequest) : Bool :=
  match req.tools with
  | some (.arr tools) => !tools.isEmpty
  | _ => false

/-- `has_tool_turns` -/
def hasToolTurns (req : ChatRequest) : Bool :=
  req.turns.any fun t => t.role == .tool || t.toolCalls.isSome

/-- The label of a turn; tool turns are refused before. -/
def roleLabel : ChatRole → String
  | .user => "User"
  | .assistant => "Assistant"
  | .tool => "Tool"

/-- `render`: the conversation as one prompt. -/
def render (req : ChatRequest) : Except EngineError String :=
  if req.hasTools || req.hasToolTurns then
    .error (.other ("this provider takes a single prompt and cannot run tools; send tool-using " ++
      "conversations to an OpenAI-shaped provider"))
  else
    match req.turns with
    | [{ role := .user, content, .. }] => .ok content
    | turns =>
      .ok ("The following is a conversation so far. Reply as the assistant to the last user turn.\n\n"
        ++ String.join (turns.map fun t => roleLabel t.role ++ ": " ++ t.content ++ "\n\n") ++
        "Assistant:")

/-- `refuse_tools` -/
def refuseTools (req : ChatRequest) (who : String) : Except EngineError Unit :=
  if req.hasTools || req.hasToolTurns then
    .error (.other ("the " ++ who ++ " adapter does not pass tools through; send tool-using " ++
      "conversations to an OpenAI-shaped provider (openai, openrouter)"))
  else .ok ()

end ChatRequest

/-! ## Outcomes -/

/-- `SchemaEnforcement` -/
inductive SchemaEnforcement where
  | enforced
  | shed
  | notRequested
  deriving DecidableEq

/-- `GenOutcome`, with the stamp of its schema. -/
structure StampedOutcome extends GenOutcome where
  reasoningTokens : Option ℕ := none
  schema : SchemaEnforcement

/-- `ChatOutcome` -/
structure ChatOutcome where
  gen : StampedOutcome
  toolCalls : Option Json := none
  finishReason : Option String := none

/-- `schema_state` -/
def schemaState (schema : Option Json) : SchemaEnforcement :=
  if schema.isSome then .enforced else .notRequested

open LightTrack.Gateway (Instant)

/-! ## The wire -/

/-- Where a request is sent. -/
inductive Route where
  | openRouter
  | codex
  | anthropicApi
  | claudeCli
  | gemini
  | openAi
  deriving DecidableEq

/-- What a request puts on the wire. A command line takes no sampling controls. -/
structure WireCall where
  route : Route
  model : String
  effort : Option Effort := none
  system : Option String := none
  turns : List ChatTurn
  schema : Option Json := none
  tools : Option Json := none
  toolChoice : Option Json := none
  /-- temperature 0 is asked for -/
  temperature : Bool := false
  /-- the fixed seed is asked for -/
  seed : Bool := false

/-- What is read from a response that ended normally. -/
structure Completion where
  output : String
  costUsd : Option ℚ := none
  latencyMs : Option ℕ := none
  inputTokens : Option ℕ := none
  outputTokens : Option ℕ := none
  reasoningTokens : Option ℕ := none
  model : Option String := none
  toolCalls : Option Json := none
  finishReason : Option String := none

/-- How the providers behave: the answer to the `n`-th call, how long the attempt takes that ends
with it, and the clock noise then. A call that fails on its way answers with that error. -/
structure Behaviour where
  reply : ℕ → Except EngineError Completion
  elapsed : ℕ → ℕ
  nanos : ℕ → ℕ

/-- The process around the engine: whether an Anthropic key is set, and the texts of errors. -/
structure EngineEnv where
  apiKey : Bool
  display : EngineError → String

/-- All calls so far, in order. -/
abbrev Wire := List WireCall

/-- Send a call. -/
def sendCall (b : Behaviour) (call : WireCall) (w : Wire) : Except EngineError Completion × Wire :=
  (b.reply w.length, w ++ [call])

/-- How an adapter reads a response, and what it stamps on the outcome. -/
structure Reading where
  who : String
  isEmpty : Completion → Bool
  modelOf : Completion → String
  determinism : Determinism
  schema : SchemaEnforcement

/-- Send a call and read what it answers; an answer with nothing in it is an error. -/
def complete (b : Behaviour) (call : WireCall) (rd : Reading) (w : Wire) :
    Except EngineError ChatOutcome × Wire :=
  match sendCall b call w with
  | (.error e, w) => (.error e, w)
  | (.ok c, w) =>
    if rd.isEmpty c then (.error (.emptyCompletion rd.who), w)
    else
      (.ok
        { gen :=
            { output := c.output
              costUsd := c.costUsd
              latencyMs := c.latencyMs
              inputTokens := c.inputTokens
              outputTokens := c.outputTokens
              model := rd.modelOf c
              determinism := rd.determinism
              reasoningTokens := c.reasoningTokens
              schema := rd.schema }
          toolCalls := c.toolCalls
          finishReason := c.finishReason }, w)

/-! ## Adapters -/

/-- `effort_unsupported` -/
def effortUnsupported (who model : String) (effort : Effort) (why : String) : EngineError :=
  .other ("the " ++ who ++ " adapter cannot request effort '" ++ effort.asStr ++ "' for model '" ++
    model ++ "': " ++ why ++ ". Sending the call anyway would report a run that was never made at '"
    ++ effort.asStr ++ "' as one that was")

namespace OpenAi

/-- `reasoning_effort`: the two levels beyond the provider's scale are refused. -/
def reasoningEffort (model : String) (effort : Effort) : Except EngineError String :=
  match effort with
  | .low => .ok "low"
  | .medium => .ok "medium"
  | .high => .ok "high"
  | .xHigh | .max => .error (effortUnsupported "openai" model effort
      ("OpenAI's `reasoning_effort` scale ends at 'high', so folding this level onto it would send " ++
        "byte-identical requests for two differently-labelled targets — declare '@high' if that " ++
        "is what you want measured"))

/-- The wire form of a chat completion. -/
def body (route : Route) (model : String) (req : ChatRequest) (deterministic : Bool)
    (effort : Option Effort) : WireCall where
  route := route
  model := model
  effort := effort
  system := req.system
  turns := req.turns
  schema := req.schema
  tools := req.tools
  toolChoice := if req.tools.isSome then req.toolChoice else none
  temperature := deterministic
  seed := deterministic

/-- A tool request is an answer with no text. -/
def isEmpty (c : Completion) : Bool := c.output == "" && c.toolCalls.isNone

/-- `openai::generate` -/
def generate (b : Behaviour) (model : String) (req : ChatRequest) (deterministic : Bool)
    (effort : Option Effort) (w : Wire) : Except EngineError ChatOutcome × Wire :=
  match effort.mapM (reasoningEffort model) with
  | .error e => (.error e, w)
  | .ok _ =>
    complete b (body .openAi model req deterministic effort)
      { who := "openai"
        isEmpty
        modelOf := fun c => c.model.getD model
        determinism := if deterministic then .exact else .bestEffort
        schema := schemaState req.schema } w

end OpenAi

/-- `openrouter::generate`: which upstream serves a call is not known, so no call is exact. -/
def OpenRouter.generate (b : Behaviour) (model : String) (req : ChatRequest) (deterministic : Bool)
    (effort : Option Effort) (w : Wire) : Except EngineError ChatOutcome × Wire :=
  complete b (OpenAi.body .openRouter model req deterministic effort)
    { who := "openrouter"
      isEmpty := OpenAi.isEmpty
      modelOf := fun c => c.model.getD model
      determinism := .bestEffort
      schema := schemaState req.schema } w

namespace Gemini

mutual

/-- `strip_schema_key` -/
def stripSchemaKey (key : String) : Json → Json
  | .obj fields => .obj (stripFields key fields)
  | .arr items => .arr (stripItems key items)
  | v => v

def stripFields (key : String) : List (String × Json) → List (String × Json)
  | [] => []
  | (k, v) :: fields =>
    if k = key then stripFields key fields
    else (k, stripSchemaKey key v) :: stripFields key fields

def stripItems (key : String) : List Json → List Json
  | [] => []
  | v :: items => stripSchemaKey key v :: stripItems key items

end

/-- `GEMINI_EFFORT_GAP` -/
def GEMINI_EFFORT_GAP : String :=
  "Gemini's thinking control is `generationConfig.thinkingConfig.thinkingBudget`, a token count " ++
    "whose valid range is per-model, and this build has no verified level-to-budget table — a " ++
    "guessed budget the API clamps or ignores would produce a scorecard column that measures nothing"

/-- `gemini::body` -/
def body (model : String) (req : ChatRequest) (deterministic : Bool) (effort : Option Effort) :
    Except EngineError WireCall :=
  match effort with
  | some level => .error (effortUnsupported "gemini" model level GEMINI_EFFORT_GAP)
  | none =>
    (req.refuseTools "gemini").map fun _ =>
      { route := .gemini
        model
        system := req.system
        turns := req.turns
        schema := req.schema.map (stripSchemaKey "additionalProperties")
        temperature := deterministic
        seed := deterministic }

/-- `gemini::generate`; the response does not name the model. -/
def generate (b : Behaviour) (model : String) (req : ChatRequest) (deterministic : Bool)
    (effort : Option Effort) (w : Wire) : Except EngineError ChatOutcome × Wire :=
  match body model req deterministic effort with
  | .error e => (.error e, w)
  | .ok call =>
    complete b call
      { who := "gemini"
        isEmpty := fun c => c.output == ""
        modelOf := fun _ => model
        determinism := if deterministic then .exact else .bestEffort
        schema := schemaState req.schema } w

end Gemini

namespace AnthropicApi

/-- `resolve_model` -/
def resolveModel (model : String) : String :=
  let model := (splitEffort model).1
  if model = "haiku" then "claude-haiku-4-5"
  else if model = "sonnet" then "claude-sonnet-5"
  else if model = "opus" then "claude-opus-5"
  else model

/-- `anthropic_api::send`. The stamp of the schema is the same for every request, also where the
schema is sent as a forced tool. -/
def send (b : Behaviour) (model : String) (req : ChatRequest) (deterministic : Bool)
    (effort : Option Effort) (w : Wire) : Except EngineError ChatOutcome × Wire :=
  match req.refuseTools "anthropic" with
  | .error e => (.error e, w)
  | .ok _ =>
    complete b
      { route := .anthropicApi
        model := resolveModel model
        effort
        system := req.system
        turns := req.turns
        schema := req.schema
        temperature := deterministic }
      { who := "anthropic"
        isEmpty := fun c => c.output == ""
        modelOf := fun c => c.model.getD model
        determinism := .bestEffort
        schema := .notRequested } w

/-- A rejection that speaks of the temperature. -/
def rejectsTemperature : Except EngineError ChatOutcome → Bool
  | .error (.badRequest _ _ body) => strContains body "temperature"
  | _ => false

/-- `anthropic_api::generate`: a rejected temperature is left out, and the schema kept. -/
def generate (b : Behaviour) (model : String) (req : ChatRequest) (deterministic : Bool)
    (effort : Option Effort) (w : Wire) : Except EngineError ChatOutcome × Wire :=
  let r := send b model req deterministic effort w
  if deterministic && rejectsTemperature r.1 then send b model req false effort r.2 else r

end AnthropicApi

/-- A command line takes one prompt and no sampling controls. -/
def generateCli (b : Behaviour) (route : Route) (who model : String) (req : ChatRequest)
    (isEmpty : Completion → Bool) (modelOf : Completion → String) (effort : Option Effort)
    (place : Option String → String → Option String × String) (w : Wire) :
    Except EngineError ChatOutcome × Wire :=
  match req.render with
  | .error e => (.error e, w)
  | .ok rendered =>
    let (system, input) := place req.system rendered
    complete b { route, model, effort, system, turns := [.user input], schema := req.schema }
      { who, isEmpty, modelOf, determinism := .bestEffort, schema := schemaState req.schema } w

namespace Codex

/-- `MAX_INSTRUCTIONS_CHARS` -/
def MAX_INSTRUCTIONS_CHARS : ℕ := 16000

/-- `fold_oversized_system`: a system prompt too long for the command line heads the user turn. -/
def foldOversizedSystem (system : Option String) (input : String) : Option String × String :=
  match system with
  | some sys =>
    if MAX_INSTRUCTIONS_CHARS < sys.length then
      (none, "<instructions>\n" ++ sys ++ "\n</instructions>\n\nFollow the instructions above for " ++
        "the request below.\n\n" ++ input)
    else (some sys, input)
  | none => (none, input)

/-- `codex::generate` -/
def generate (b : Behaviour) (model : String) (req : ChatRequest) (effort : Option Effort)
    (w : Wire) : Except EngineError ChatOutcome × Wire :=
  generateCli b .codex "codex exec" model req (fun c => strTrim c.output == "") (fun _ => model)
    effort foldOversizedSystem w

end Codex

/-- `generate_anthropic`: the Claude command line. -/
def generateAnthropic (b : Behaviour) (model : String) (req : ChatRequest) (effort : Option Effort)
    (w : Wire) : Except EngineError ChatOutcome × Wire :=
  generateCli b .claudeCli "claude" model req (fun c => c.output == "")
    (fun c => c.model.getD model) effort Prod.mk w

/-! ## Dispatch -/

/-- Where a provider's requests are sent: two are matched on their id, the others on their
family. -/
def routeOf (env : EngineEnv) (provider : String) : Option Route :=
  let id := ProviderId.new provider
  if id.asStr = "openrouter" then some .openRouter
  else if id.asStr = "codex" then some .codex
  else
    match familyOf provider with
    | .anthropic => some (if env.apiKey then .anthropicApi else .claudeCli)
    | .google => some .gemini
    | .openAi => some .openAi
    | _ => none

/-- The error for a provider without an adapter. -/
def noAdapter (provider : String) : EngineError :=
  .other ("no generation adapter for provider '" ++ provider ++ "' (family " ++
    (familyOf provider).asStr ++ "); this build can generate with anthropic, google, openai, " ++
    "openrouter and codex only — observability and pricing accept any provider, generation does not")

/-- A request along a route. -/
def dispatch (b : Behaviour) (route : Route) (model : String) (req : ChatRequest)
    (deterministic : Bool) (effort : Option Effort) (w : Wire) :
    Except EngineError ChatOutcome × Wire :=
  match route with
  | .openRouter => OpenRouter.generate b model req deterministic effort w
  | .codex => Codex.generate b model req effort w
  | .anthropicApi => AnthropicApi.generate b model req deterministic effort w
  | .claudeCli => generateAnthropic b model req effort w
  | .gemini => Gemini.generate b model req deterministic effort w
  | .openAi => OpenAi.generate b model req deterministic effort w

/-- `generate_once` -/
def generateOnce (env : EngineEnv) (b : Behaviour) (provider model : String) (req : ChatRequest)
    (deterministic : Bool) (w : Wire) : Except EngineError ChatOutcome × Wire :=
  match routeOf env provider with
  | some route => dispatch b route (splitEffort model).1 req deterministic (splitEffort model).2 w
  | none => (.error (noAdapter provider), w)

/-- A dispatch as a call of a ladder. -/
def attempt (env : EngineEnv) (b : Behaviour) (provider model : String) (req : ChatRequest)
    (deterministic : Bool) (w : Wire) : Report ChatOutcome × Wire :=
  let r := generateOnce env b provider model req deterministic w
  (⟨r.1, b.elapsed r.2.length, b.nanos r.2.length⟩, r.2)

@[simp] theorem attempt_result (env : EngineEnv) (b : Behaviour) (provider model : String)
    (req : ChatRequest) (deterministic : Bool) (w : Wire) :
    (attempt env b provider model req deterministic w).1.result =
      (generateOnce env b provider model req deterministic w).1 := by
  simp only [attempt]

@[simp] theorem attempt_wire (env : EngineEnv) (b : Behaviour) (provider model : String)
    (req : ChatRequest) (deterministic : Bool) (w : Wire) :
    (attempt env b provider model req deterministic w).2 =
      (generateOnce env b provider model req deterministic w).2 := by
  simp only [attempt]

/-- `generate_retrying` -/
def generateRetrying (env : EngineEnv) (b : Behaviour) (provider model : String)
    (req : ChatRequest) (deterministic : Bool) (now : Instant) (w : Wire) :
    Option (RetryRun ChatOutcome Wire) :=
  withRetry env.display (attempt env b provider model req deterministic) now w

/-! ## Entry points -/

/-- The provider rejected the request. -/
def isBadRequest : Except EngineError ChatOutcome → Bool
  | .error (.badRequest _ _ _) => true
  | _ => false

/-- The schema was asked for and left out. -/
def markShed (o : ChatOutcome) : ChatOutcome := { o with gen := { o.gen with schema := .shed } }

/-- `generate_chat`: a rejected schema is left out. -/
def generateChat (env : EngineEnv) (b : Behaviour) (provider model : String) (req : ChatRequest)
    (now : Instant) (w : Wire) : Option (Except EngineError ChatOutcome × Wire) :=
  (generateRetrying env b provider model req false now w).bind fun run =>
    if isBadRequest run.result && req.schema.isSome then
      (generateRetrying env b provider model { req with schema := none } false run.now
        run.state).map fun run => (run.result.map markShed, run.state)
    else some (run.result, run.state)

/-- `generate` -/
def generate (env : EngineEnv) (b : Behaviour) (provider model : String) (system : Option String)
    (input : String) (schema : Option Json) (now : Instant) (w : Wire) :
    Option (Except EngineError StampedOutcome × Wire) :=
  (generateChat env b provider model (.single system input schema) now w).map fun r =>
    (r.1.map ChatOutcome.gen, r.2)

/-- `generate_deterministic`: a rejected request is repeated without its schema and without
pinning. -/
def generateDeterministic (env : EngineEnv) (b : Behaviour) (provider model : String)
    (system : Option String) (input : String) (schema : Option Json) (now : Instant) (w : Wire) :
    Option (Except EngineError StampedOutcome × Wire) :=
  (generateRetrying env b provider model (.single system input schema) true now w).bind fun run =>
    if isBadRequest run.result then
      (generateRetrying env b provider model (.single system input none) false run.now
        run.state).map fun run => (run.result.map ChatOutcome.gen, run.state)
    else some (run.result.map ChatOutcome.gen, run.state)

/-- A call of the engine, by its entry point. -/
inductive Entry where
  | generate (system : Option String) (input : String) (schema : Option Json)
  | generateChat (req : ChatRequest)
  | generateDeterministic (system : Option String) (input : String) (schema : Option Json)

namespace Entry

/-- The schema the caller asked for. -/
def asked : Entry → Option Json
  | generate _ _ schema => schema
  | generateChat req => req.schema
  | generateDeterministic _ _ schema => schema

/-- The call asks for pinning. -/
def isDeterministic : Entry → Bool
  | generateDeterministic _ _ _ => true
  | _ => false

/-- What the call returns, and all that was sent. -/
def exec (env : EngineEnv) (b : Behaviour) (provider model : String) (now : Instant) :
    Entry → Option (Except EngineError StampedOutcome × Wire)
  | generate system input schema => Engine.generate env b provider model system input schema now []
  | generateChat req =>
    (Engine.generateChat env b provider model req now []).map fun r =>
      (r.1.map ChatOutcome.gen, r.2)
  | generateDeterministic system input schema =>
    Engine.generateDeterministic env b provider model system input schema now []

end Entry

/-! ## The stamps -/

/-- How reproducible a call can be at most: exact where every sampling control was pinned. -/
def WireCall.pinning (call : WireCall) : Determinism :=
  if call.temperature && call.seed then .exact else .bestEffort

/-- The stamps of an outcome tell the truth about the call that was served. -/
structure TruthfulStamps (asked : Option Json) (served : WireCall) (o : StampedOutcome) : Prop where
  enforced : o.schema = .enforced ↔ served.schema.isSome = true
  shed : o.schema = .shed ↔ asked.isSome = true ∧ served.schema = none
  notRequested : o.schema = .notRequested ↔ asked = none
  determinism : o.determinism.rank ≤ served.pinning.rank

/-- The provider rejects the first request: what it answers first, passing failures apart, is that
the request is bad. -/
def Behaviour.Rejects (b : Behaviour) : Prop :=
  ∃ n, (∀ m < n, ∃ e, b.reply m = .error e ∧ e.isRetryable = true) ∧
    ∃ who status body, b.reply n = .error (.badRequest who status body)

/-- Where the stamps are right: no schema is asked for; or pinning is, the provider is not the bare
Messages API and accepts the request; or pinning is not, and the provider is not the bare Messages
API or rejects the request. -/
def StampsKept (route : Option Route) (b : Behaviour) (entry : Entry) : Prop :=
  entry.asked = none ∨
    (entry.isDeterministic = true ∧ route ≠ some .anthropicApi ∧ ¬ b.Rejects) ∨
    (entry.isDeterministic = false ∧ (route ≠ some .anthropicApi ∨ b.Rejects))

/-- What an adapter stamps for a schema. -/
def stampOf (route : Option Route) (schema : Option Json) : SchemaEnforcement :=
  if route = some .anthropicApi then .notRequested else schemaState schema

/-- An outcome of one call for a request, as its adapter stamps it. -/
structure Served (route : Option Route) (req : ChatRequest) (call : WireCall) (o : ChatOutcome) : Prop where
  schema : call.schema.isSome = req.schema.isSome
  stamp : o.gen.schema = stampOf route req.schema
  pinned : o.gen.determinism.rank ≤ call.pinning.rank

/-- What one dispatch can come to: a refusal before anything is sent, or one call, whose answer is
an error, is empty, or is served. -/
inductive Once (b : Behaviour) (route : Option Route) (req : ChatRequest) (w : Wire) :
    Except EngineError ChatOutcome × Wire → Prop
  | refused {message : String} : Once b route req w (.error (.other message), w)
  | failed {e : EngineError} {call : WireCall} : b.reply w.length = .error e →
      Once b route req w (.error e, w ++ [call])
  | empty {c : Completion} {who : String} {call : WireCall} : b.reply w.length = .ok c →
      Once b route req w (.error (.emptyCompletion who), w ++ [call])
  | served {c : Completion} {o : ChatOutcome} {call : WireCall} : b.reply w.length = .ok c →
      Served route req call o → Once b route req w (.ok o, w ++ [call])

section Once

variable {b : Behaviour} {route : Option Route} {req : ChatRequest} {w : Wire}

/-- A call comes to what its adapter reads. -/
theorem once_complete {call : WireCall} {rd : Reading}
    (hschema : call.schema.isSome = req.schema.isSome) (hstamp : rd.schema = stampOf route req.schema)
    (hpinned : rd.determinism.rank ≤ call.pinning.rank) :
    Once b route req w (complete b call rd w) := by
  unfold complete sendCall
  cases hreply : b.reply w.length with
  | error e => exact .failed hreply
  | ok c =>
    simp only
    by_cases hempty : rd.isEmpty c = true
    · rw [if_pos hempty]
      exact .empty hreply
    · rw [if_neg hempty]
      exact .served hreply ⟨hschema, hstamp, hpinned⟩

theorem bestEffort_le_pinning (call : WireCall) :
    Determinism.rank .bestEffort ≤ call.pinning.rank := by
  unfold WireCall.pinning
  split_ifs <;> decide

/-- An adapter that pins what it is asked to stamps no more than that. -/
theorem pinned_le {call : WireCall} {deterministic : Bool} (htemperature : call.temperature = deterministic)
    (hseed : call.seed = deterministic) :
    (if deterministic then Determinism.exact else .bestEffort).rank ≤ call.pinning.rank := by
  unfold WireCall.pinning
  rw [htemperature, hseed]
  cases deterministic <;> decide

theorem once_openAi (model : String) (deterministic : Bool) (effort : Option Effort) :
    Once b (some .openAi) req w (OpenAi.generate b model req deterministic effort w) := by
  have hsent : Once b (some .openAi) req w (complete b (OpenAi.body .openAi model req deterministic effort)
      { who := "openai"
        isEmpty := OpenAi.isEmpty
        modelOf := fun c => c.model.getD model
        determinism := if deterministic then .exact else .bestEffort
        schema := schemaState req.schema } w) :=
    once_complete rfl rfl (pinned_le rfl rfl)
  unfold OpenAi.generate
  cases effort with
  | none => exact hsent
  | some level =>
    cases level with
    | low => exact hsent
    | medium => exact hsent
    | high => exact hsent
    | xHigh => exact .refused
    | max => exact .refused

theorem once_openRouter (model : String) (deterministic : Bool) (effort : Option Effort) :
    Once b (some .openRouter) req w (OpenRouter.generate b model req deterministic effort w) :=
  once_complete rfl rfl (bestEffort_le_pinning _)

/-- Tools are refused with a message of the engine's own. -/
theorem refuseTools_cases (req : ChatRequest) (who : String) :
    req.refuseTools who = .ok () ∨ ∃ message, req.refuseTools who = .error (.other message) := by
  unfold ChatRequest.refuseTools
  split_ifs
  · exact .inr ⟨_, rfl⟩
  · exact .inl rfl

theorem once_gemini (model : String) (deterministic : Bool) (effort : Option Effort) :
    Once b (some .gemini) req w (Gemini.generate b model req deterministic effort w) := by
  unfold Gemini.generate Gemini.body
  cases effort with
  | some level => exact .refused
  | none =>
    rcases refuseTools_cases req "gemini" with hok | ⟨message, herr⟩
    · simp only [hok, Except.map]
      refine once_complete ?_ rfl (pinned_le rfl rfl)
      simp
    · simp only [herr, Except.map]
      exact .refused

theorem once_send (model : String) (deterministic : Bool) (effort : Option Effort) :
    Once b (some .anthropicApi) req w (AnthropicApi.send b model req deterministic effort w) := by
  unfold AnthropicApi.send
  rcases refuseTools_cases req "anthropic" with hok | ⟨message, herr⟩
  · rw [hok]
    exact once_complete rfl rfl (bestEffort_le_pinning _)
  · rw [herr]
    exact .refused

theorem once_cli {who model : String} {isEmpty : Completion → Bool} {modelOf : Completion → String}
    {effort : Option Effort} {place : Option String → String → Option String × String} {to_ : Route}
    (hroute : route ≠ some .anthropicApi) :
    Once b route req w (generateCli b to_ who model req isEmpty modelOf effort place w) := by
  unfold generateCli
  by_cases htools : (req.hasTools || req.hasToolTurns) = true
  · have hrefused : req.render = .error (.other ("this provider takes a single prompt and cannot " ++
        "run tools; send tool-using conversations to an OpenAI-shaped provider")) := by
      unfold ChatRequest.render
      rw [if_pos htools]
      rfl
    rw [hrefused]
    exact .refused
  · have hrendered : ∃ rendered, req.render = .ok rendered := by
      unfold ChatRequest.render
      rw [if_neg htools]
      split
      · exact ⟨_, rfl⟩
      · exact ⟨_, rfl⟩
    rcases hrendered with ⟨rendered, hrendered⟩
    rw [hrendered]
    refine once_complete rfl ?_ (bestEffort_le_pinning _)
    unfold stampOf
    rw [if_neg hroute]

/-- One dispatch makes at most one call; the bare Messages API may make another one when pinning is
asked for. -/
theorem once_dispatch {route : Route} (model : String) (deterministic : Bool)
    (effort : Option Effort) (hone : route ≠ .anthropicApi ∨ deterministic = false) :
    Once b (some route) req w (dispatch b route model req deterministic effort w) := by
  cases route with
  | openRouter => exact once_openRouter model deterministic effort
  | codex =>
    have hroute : some Route.codex ≠ some .anthropicApi := by decide
    unfold dispatch Codex.generate
    exact once_cli hroute
  | claudeCli =>
    have hroute : some Route.claudeCli ≠ some .anthropicApi := by decide
    unfold dispatch generateAnthropic
    exact once_cli hroute
  | gemini => exact once_gemini model deterministic effort
  | openAi => exact once_openAi model deterministic effort
  | anthropicApi =>
    rw [hone.resolve_left fun h => h rfl]
    exact once_send model false effort

/-- What is served was sent last. -/
theorem Once.last {o : ChatOutcome} {w' : Wire} (h : Once b route req w (.ok o, w')) :
    ∃ call, w'.getLast? = some call ∧ Served route req call o := by
  cases h with
  | served hreply hserved => exact ⟨_, List.getLast?_concat, hserved⟩

theorem last_dispatch {route : Route} {model : String} {deterministic : Bool}
    {effort : Option Effort} {o : ChatOutcome}
    (h : (dispatch b route model req deterministic effort w).1 = .ok o) :
    ∃ call, (dispatch b route model req deterministic effort w).2.getLast? = some call ∧
      Served (some route) req call o := by
  by_cases hone : route ≠ .anthropicApi ∨ deterministic = false
  · have honce : Once b (some route) req w (dispatch b route model req deterministic effort w) :=
      once_dispatch model deterministic effort hone
    rw [← Prod.mk.eta (p := dispatch b route model req deterministic effort w), h] at honce
    exact honce.last
  · -- the request may have been repeated without the temperature
    have hroute : route = .anthropicApi := by
      by_contra hne
      exact hone (.inl hne)
    subst hroute
    have hsend : ∀ d w', (AnthropicApi.send b model req d effort w').1 = .ok o →
        ∃ call, (AnthropicApi.send b model req d effort w').2.getLast? = some call ∧
          Served (some .anthropicApi) req call o := by
      intro d w' hok
      have honce : Once b (some .anthropicApi) req w' (AnthropicApi.send b model req d effort w') :=
        once_send model d effort
      rw [← Prod.mk.eta (p := AnthropicApi.send b model req d effort w'), hok] at honce
      exact honce.last
    change (AnthropicApi.generate b model req deterministic effort w).1 = .ok o at h
    change ∃ call, (AnthropicApi.generate b model req deterministic effort w).2.getLast? =
      some call ∧ _
    unfold AnthropicApi.generate at h ⊢
    simp only at h ⊢
    by_cases hrejects : (deterministic && AnthropicApi.rejectsTemperature
        (AnthropicApi.send b model req deterministic effort w).1) = true
    · rw [if_pos hrejects] at h ⊢
      exact hsend false _ h
    · rw [if_neg hrejects] at h ⊢
      exact hsend deterministic w h

theorem once_generateOnce {env : EngineEnv} {provider : String} (model : String)
    (deterministic : Bool)
    (hone : routeOf env provider ≠ some .anthropicApi ∨ deterministic = false) :
    Once b (routeOf env provider) req w
      (generateOnce env b provider model req deterministic w) := by
  unfold generateOnce
  cases hroute : routeOf env provider with
  | none => exact .refused
  | some route =>
    refine once_dispatch _ deterministic _ (hone.imp_left ?_)
    rw [hroute]
    exact fun hne heq => hne (congrArg some heq)

theorem last_generateOnce {env : EngineEnv} {provider model : String} {deterministic : Bool}
    {o : ChatOutcome} (h : (generateOnce env b provider model req deterministic w).1 = .ok o) :
    ∃ call, (generateOnce env b provider model req deterministic w).2.getLast? = some call ∧
      Served (routeOf env provider) req call o := by
  unfold generateOnce at h ⊢
  cases hroute : routeOf env provider with
  | none =>
    rw [hroute] at h
    cases h
  | some route =>
    rw [hroute] at h
    exact last_dispatch h

end Once

section Ladder

variable {env : EngineEnv} {b : Behaviour} {provider model : String} {req : ChatRequest}
  {deterministic : Bool} {now : Instant} {w : Wire} {run : RetryRun ChatOutcome Wire}

/-- What a ladder returns was served by the last call. -/
theorem last_generateRetrying (h : generateRetrying env b provider model req deterministic now w =
    some run) {o : ChatOutcome} (hok : run.result = .ok o) :
    ∃ call, run.state.getLast? = some call ∧ Served (routeOf env provider) req call o := by
  rcases eq_climb_of_withRetry h with ⟨deadline, hdeadline, rfl⟩
  rcases @climb_last _ _ env.display deadline (attempt env b provider model req deterministic)
    hdeadline (fun _ => True) (fun _ _ _ _ _ => trivial) 1 now w trivial with
    ⟨w', -, hstate, hresult | ⟨who, asked, remaining, n, hover⟩⟩
  · rw [hresult, attempt_result] at hok
    rw [hstate, attempt_wire]
    exact last_generateOnce hok
  · rw [hover] at hok
    cases hok

/-- All that was sent met with passing failures. -/
def AllPassing (b : Behaviour) (w : Wire) : Prop :=
  ∀ m < w.length, ∃ e, b.reply m = .error e ∧ e.isRetryable = true

theorem allPassing_concat {call : WireCall} {e : EngineError} (h : AllPassing b w)
    (hreply : b.reply w.length = .error e) (hretry : e.isRetryable = true) :
    AllPassing b (w ++ [call]) := by
  intro m hm
  rw [List.length_append, List.length_singleton] at hm
  rcases Nat.lt_succ_iff_lt_or_eq.1 hm with hlt | rfl
  · exact h m hlt
  · exact ⟨e, hreply, hretry⟩

/-- The first ladder of a call ends as the provider's first answer, passing failures apart. -/
theorem rejects_of_generateRetrying
    (hone : routeOf env provider ≠ some .anthropicApi ∨ deterministic = false)
    (h : generateRetrying env b provider model req deterministic now [] = some run) :
    (isBadRequest run.result = true → b.Rejects) ∧ ∀ o, run.result = .ok o → ¬ b.Rejects := by
  have honce : ∀ w, Once b (routeOf env provider) req w
      (generateOnce env b provider model req deterministic w) :=
    fun w => once_generateOnce model deterministic hone
  rcases eq_climb_of_withRetry h with ⟨deadline, hdeadline, rfl⟩
  have hstep : ∀ (w : Wire) e, AllPassing b w →
      (attempt env b provider model req deterministic w).1.result = .error e →
        e.isRetryable = true → AllPassing b (attempt env b provider model req deterministic w).2 := by
    intro w e hpassing hresult hretry
    rw [attempt_result] at hresult
    rw [attempt_wire]
    have hw := honce w
    generalize generateOnce env b provider model req deterministic w = r at hresult hw
    cases hw with
    | refused =>
      rw [← Except.error.inj hresult] at hretry
      cases hretry
    | failed hreply =>
      rw [← Except.error.inj hresult] at hretry
      exact allPassing_concat hpassing hreply hretry
    | empty hreply =>
      rw [← Except.error.inj hresult] at hretry
      cases hretry
    | served hreply hserved => cases hresult
  have hstart : AllPassing b [] := fun m hm => absurd hm (Nat.not_lt_zero m)
  rcases @climb_last _ _ env.display deadline (attempt env b provider model req deterministic)
    hdeadline (AllPassing b) hstep 1 now [] hstart with
    ⟨w', hpassing, -, hresult | ⟨who, asked, remaining, n, hover⟩⟩
  · rw [hresult, attempt_result]
    have hw := honce w'
    generalize generateOnce env b provider model req deterministic w' = r at hw
    cases hw with
    | refused => exact ⟨fun hbad => (Bool.false_ne_true hbad).elim, fun _ hok => nomatch hok⟩
    | @failed e _ hreply =>
      refine ⟨?_, fun _ hok => nomatch hok⟩
      intro hbad
      refine ⟨w'.length, hpassing, ?_⟩
      cases e with
      | badRequest who status body => exact ⟨who, status, body, hreply⟩
      | _ => exact (Bool.false_ne_true hbad).elim
    | empty hreply => exact ⟨fun hbad => (Bool.false_ne_true hbad).elim, fun _ hok => nomatch hok⟩
    | served hreply hserved =>
      refine ⟨fun hbad => (Bool.false_ne_true hbad).elim, ?_⟩
      rintro o - ⟨n, hbefore, who, status, body, hbad⟩
      -- the answer that was served is the first that is no passing failure
      rcases lt_trichotomy n w'.length with hlt | heq | hgt
      · rcases hpassing n hlt with ⟨e, he, hretry⟩
        rw [hbad] at he
        rw [← Except.error.inj he] at hretry
        cases hretry
      · rw [heq, hreply] at hbad
        cases hbad
      · rcases hbefore _ hgt with ⟨e, he, -⟩
        rw [hreply] at he
        cases he
  · rw [hover]
    exact ⟨fun hbad => (Bool.false_ne_true hbad).elim, fun _ hok => nomatch hok⟩

end Ladder

/-! ## When the stamps are right -/

/-- The stamp a schema should have. -/
def expectedStamp (asked : Option Json) (served : WireCall) : SchemaEnforcement :=
  if served.schema.isSome then .enforced
  else if asked.isSome then .shed
  else .notRequested

/-- The stamps are right if that of the schema is the expected one. -/
theorem truthfulStamps_iff {asked : Option Json} {served : WireCall} {o : StampedOutcome}
    (hasked : served.schema.isSome = true → asked.isSome = true)
    (hpinned : o.determinism.rank ≤ served.pinning.rank) :
    TruthfulStamps asked served o ↔ o.schema = expectedStamp asked served := by
  unfold expectedStamp
  constructor
  · intro h
    -- the stamp is forced by what was served, and if nothing was, by what was asked
    by_cases hserved : served.schema.isSome = true
    · rw [if_pos hserved]
      exact h.enforced.2 hserved
    · rw [if_neg hserved]
      have hnone : served.schema = none := by simpa using hserved
      by_cases hsome : asked.isSome = true
      · rw [if_pos hsome]
        exact h.shed.2 ⟨hsome, hnone⟩
      · rw [if_neg hsome]
        exact h.notRequested.2 (by simpa using hsome)
  · intro h
    -- each stamp excludes the two others
    cases hserved : served.schema with
    | some schema =>
      rw [hserved] at h hasked
      have hne : asked ≠ none := Option.isSome_iff_ne_none.1 (hasked rfl)
      have hstamp : o.schema = .enforced := h
      constructor
      · rw [hstamp, hserved]
        exact iff_of_true rfl rfl
      · rw [hstamp, hserved]
        exact iff_of_false (by decide) fun hshed => nomatch hshed.2
      · rw [hstamp]
        exact iff_of_false (by decide) hne
      · exact hpinned
    | none =>
      rw [hserved] at h
      cases asked with
      | some schema =>
        have hstamp : o.schema = .shed := h
        constructor
        · rw [hstamp, hserved]
          exact iff_of_false (by decide) Bool.false_ne_true
        · rw [hstamp, hserved]
          exact iff_of_true rfl ⟨rfl, rfl⟩
        · rw [hstamp]
          exact iff_of_false (by decide) (Option.some_ne_none _)
        · exact hpinned
      | none =>
        have hstamp : o.schema = .notRequested := h
        constructor
        · rw [hstamp, hserved]
          exact iff_of_false (by decide) Bool.false_ne_true
        · rw [hstamp]
          exact iff_of_false (by decide) fun hshed => Bool.false_ne_true hshed.1
        · rw [hstamp]
          exact iff_of_true rfl rfl
        · exact hpinned

section Stamps

variable {route : Option Route} {req : ChatRequest} {call : WireCall} {o : ChatOutcome}

/-- An outcome of the request as it was asked for is stamped right, but by the bare Messages API. -/
theorem truthful_of_served (h : Served route req call o) :
    TruthfulStamps req.schema call o.gen ↔ req.schema = none ∨ route ≠ some .anthropicApi := by
  rw [truthfulStamps_iff (fun hserved => h.schema.symm.trans hserved) h.pinned, h.stamp]
  unfold expectedStamp stampOf schemaState
  rw [h.schema]
  cases req.schema with
  | none => simp
  | some schema =>
    by_cases hroute : route = some .anthropicApi
    · simp [hroute]
    · simp [hroute]

/-- An outcome of the request without its schema is marked by `generate_chat`. -/
theorem truthful_of_marked {asked : Option Json} (hasked : asked.isSome = true)
    (hnone : req.schema = none) (h : Served route req call o) :
    TruthfulStamps asked call (markShed o).gen := by
  have hcall : call.schema.isSome = false := by
    rw [h.schema, hnone]
    rfl
  have hpinned : (markShed o).gen.determinism.rank ≤ call.pinning.rank := h.pinned
  refine (truthfulStamps_iff (fun _ => hasked) hpinned).2 ?_
  unfold expectedStamp
  rw [hcall, hasked]
  rfl

/-- An outcome of the request without its schema that is not marked looks as if none had been asked
for. -/
theorem truthful_of_unmarked {asked : Option Json} (hnone : req.schema = none)
    (h : Served route req call o) : TruthfulStamps asked call o.gen ↔ asked = none := by
  have hcall : call.schema.isSome = false := by
    rw [h.schema, hnone]
    rfl
  have hstamp : o.gen.schema = .notRequested := by
    rw [h.stamp, hnone]
    exact ite_self _
  constructor
  · intro ht
    exact ht.notRequested.1 hstamp
  · intro hasked
    refine (truthfulStamps_iff (fun hserved => ?_) h.pinned).2 ?_
    · rw [hcall] at hserved
      cases hserved
    · unfold expectedStamp
      rw [hcall, hasked, hstamp]
      rfl

end Stamps

section Entry

variable {env : EngineEnv} {b : Behaviour} {provider model : String} {now : Instant}

/-- What `generate_chat` returns. -/
theorem stamps_generateChat {req : ChatRequest} {o : ChatOutcome} {w : Wire}
    (h : generateChat env b provider model req now [] = some (.ok o, w)) :
    ∃ served, w.getLast? = some served ∧ o.gen.determinism.rank ≤ served.pinning.rank ∧
      (TruthfulStamps req.schema served o.gen ↔
        req.schema = none ∨ routeOf env provider ≠ some .anthropicApi ∨ b.Rejects) := by
  rcases Option.bind_eq_some_iff.1 h with ⟨run, hrun, h⟩
  have hfirst := rejects_of_generateRetrying (.inr rfl) hrun
  by_cases hbad : (isBadRequest run.result && req.schema.isSome) = true
  · -- the schema was rejected and left out
    rw [if_pos hbad] at h
    rw [Bool.and_eq_true] at hbad
    rcases Option.map_eq_some_iff.1 h with ⟨rest, hrest, h⟩
    have hwire : rest.state = w := congrArg Prod.snd h
    have hresult : rest.result.map markShed = .ok o := congrArg Prod.fst h
    cases hserved : rest.result with
    | error e =>
      rw [hserved] at hresult
      cases hresult
    | ok o' =>
      rw [hserved] at hresult
      rcases last_generateRetrying hrest hserved with ⟨call, hlast, hcall⟩
      rw [hwire] at hlast
      rw [← Except.ok.inj hresult]
      refine ⟨call, hlast, hcall.pinned, ?_⟩
      exact iff_of_true (truthful_of_marked hbad.2 rfl hcall) (.inr (.inr (hfirst.1 hbad.1)))
  · rw [if_neg hbad] at h
    have hok : run.result = .ok o := congrArg Prod.fst (Option.some.inj h)
    have hwire : run.state = w := congrArg Prod.snd (Option.some.inj h)
    rcases last_generateRetrying hrun hok with ⟨call, hlast, hcall⟩
    rw [hwire] at hlast
    refine ⟨call, hlast, hcall.pinned, ?_⟩
    rw [truthful_of_served hcall, or_iff_left (hfirst.2 o hok)]

/-- What `generate_deterministic` returns. -/
theorem stamps_generateDeterministic {system schema : Option _} {input : String}
    {o : StampedOutcome} {w : Wire}
    (h : generateDeterministic env b provider model system input schema now [] = some (.ok o, w)) :
    ∃ served, w.getLast? = some served ∧ o.determinism.rank ≤ served.pinning.rank ∧
      (TruthfulStamps schema served o ↔
        schema = none ∨ routeOf env provider ≠ some .anthropicApi ∧ ¬ b.Rejects) := by
  rcases Option.bind_eq_some_iff.1 h with ⟨run, hrun, h⟩
  by_cases hbad : isBadRequest run.result = true
  · -- the schema was left out, and nothing says so
    rw [if_pos hbad] at h
    rcases Option.map_eq_some_iff.1 h with ⟨rest, hrest, h⟩
    have hwire : rest.state = w := congrArg Prod.snd h
    have hresult : rest.result.map ChatOutcome.gen = .ok o := congrArg Prod.fst h
    cases hserved : rest.result with
    | error e =>
      rw [hserved] at hresult
      cases hresult
    | ok o' =>
      rw [hserved] at hresult
      rcases last_generateRetrying hrest hserved with ⟨call, hlast, hcall⟩
      rw [hwire] at hlast
      rw [← Except.ok.inj hresult]
      refine ⟨call, hlast, hcall.pinned, ?_⟩
      rw [truthful_of_unmarked rfl hcall, iff_self_or]
      rintro ⟨hroute, hno⟩
      exact absurd ((rejects_of_generateRetrying (.inl hroute) hrun).1 hbad) hno
  · rw [if_neg hbad] at h
    have hresult : run.result.map ChatOutcome.gen = .ok o := congrArg Prod.fst (Option.some.inj h)
    have hwire : run.state = w := congrArg Prod.snd (Option.some.inj h)
    cases hserved : run.result with
    | error e =>
      rw [hserved] at hresult
      cases hresult
    | ok o' =>
      rw [hserved] at hresult
      rcases last_generateRetrying hrun hserved with ⟨call, hlast, hcall⟩
      rw [hwire] at hlast
      rw [← Except.ok.inj hresult]
      refine ⟨call, hlast, hcall.pinned, ?_⟩
      refine (truthful_of_served hcall).trans (or_congr_right ?_)
      constructor
      · intro hroute
        exact ⟨hroute, (rejects_of_generateRetrying (.inl hroute) hrun).2 o' hserved⟩
      · exact And.left

/-- **The stamps of an outcome tell the truth exactly where `StampsKept` holds**, and a call never
counts as more reproducible than it was sent. -/
theorem stamp_truthful_iff {entry : Entry} {o : StampedOutcome} {w : Wire}
    (h : entry.exec env b provider model now = some (.ok o, w)) :
    ∃ served, w.getLast? = some served ∧ o.determinism.rank ≤ served.pinning.rank ∧
      (TruthfulStamps entry.asked served o ↔ StampsKept (routeOf env provider) b entry) := by
  -- two of the entries are a chat
  have hchat : ∀ req : ChatRequest, ((generateChat env b provider model req now []).map fun r =>
      (r.1.map ChatOutcome.gen, r.2)) = some (.ok o, w) →
        ∃ served, w.getLast? = some served ∧ o.determinism.rank ≤ served.pinning.rank ∧
          (TruthfulStamps req.schema served o ↔
            req.schema = none ∨ routeOf env provider ≠ some .anthropicApi ∨ b.Rejects) := by
    intro req hreq
    rcases Option.map_eq_some_iff.1 hreq with ⟨⟨result, w'⟩, hrun, heq⟩
    have hwire : w' = w := congrArg Prod.snd heq
    have hresult : result.map ChatOutcome.gen = .ok o := congrArg Prod.fst heq
    cases result with
    | error e => cases hresult
    | ok o' =>
      rw [hwire] at hrun
      rw [← Except.ok.inj hresult]
      exact stamps_generateChat hrun
  unfold StampsKept
  cases entry with
  | generate system input schema =>
    unfold Entry.exec Engine.generate at h
    rcases hchat (.single system input schema) h with ⟨served, hlast, hpinned, hiff⟩
    refine ⟨served, hlast, hpinned, hiff.trans ?_⟩
    simp [Entry.asked, Entry.isDeterministic, ChatRequest.single]
  | generateChat req =>
    unfold Entry.exec at h
    rcases hchat req h with ⟨served, hlast, hpinned, hiff⟩
    refine ⟨served, hlast, hpinned, hiff.trans ?_⟩
    simp [Entry.asked, Entry.isDeterministic]
  | generateDeterministic system input schema =>
    unfold Entry.exec at h
    rcases stamps_generateDeterministic h with ⟨served, hlast, hpinned, hiff⟩
    refine ⟨served, hlast, hpinned, hiff.trans ?_⟩
    simp [Entry.asked, Entry.isDeterministic]

end Entry

/-! ## Two runs -/

/-- No key is set. -/
def keyless : EngineEnv where
  apiKey := false
  display := fun _ => ""

/-- What the provider of both runs answers. -/
def greeting : Completion := { output := "hi" }

/-- A provider that takes every request. -/
def acceptsAll : Behaviour where
  reply := fun _ => .ok greeting
  elapsed := fun _ => 0
  nanos := fun _ => 0

/-- A provider that rejects the first request. -/
def rejectsFirst : Behaviour where
  reply := fun n => if n = 0 then .error (.badRequest "openai" 400 "schema") else .ok greeting
  elapsed := fun _ => 0
  nanos := fun _ => 0

/-- The request of both runs, with and without its schema. -/
abbrev greet (schema : Option Json) : ChatRequest := .single none "hi" schema

/-- The outcome of both runs. -/
def greeted (determinism : Determinism) (schema : SchemaEnforcement) : StampedOutcome :=
  { output := "hi", model := "gpt-5", determinism, schema }

theorem generateOnce_openai (b : Behaviour) (req : ChatRequest) (deterministic : Bool) (w : Wire) :
    generateOnce keyless b "openai" "gpt-5" req deterministic w =
      OpenAi.generate b "gpt-5" req deterministic none w := by
  have hroute : routeOf keyless "openai" = some .openAi := by decide +kernel
  have hsplit : splitEffort "gpt-5" = ("gpt-5", none) := by decide +kernel
  unfold generateOnce
  rw [hroute, hsplit]
  rfl

/-- A request that the provider settles at once is sent once. -/
theorem generateRetrying_openai {b : Behaviour} {req : ChatRequest} {deterministic : Bool}
    {w w' : Wire} {result : Except EngineError ChatOutcome}
    (helapsed : ∀ n, b.elapsed n = 0)
    (h : OpenAi.generate b "gpt-5" req deterministic none w = (result, w'))
    (hsettled : ∀ e, result = .error e → e.isRetryable = false) :
    ∃ tries, generateRetrying keyless b "openai" "gpt-5" req deterministic 0 w =
      some ⟨result, tries, 0, w'⟩ := by
  have honce := (generateOnce_openai b req deterministic w).trans h
  have hrun : generateRetrying keyless b "openai" "gpt-5" req deterministic 0 w = _ :=
    withRetry_of_settled (by decide) (by
      intro e he
      rw [attempt_result, honce] at he
      exact hsettled e he)
  rw [attempt_result, attempt_wire, honce] at hrun
  have hzero : (attempt keyless b "openai" "gpt-5" req deterministic w).1.elapsed = 0 := by
    simp only [attempt, helapsed]
  rw [hzero] at hrun
  exact ⟨_, hrun⟩

/-- A schema that is taken is sent and enforced. -/
theorem exec_acceptsAll :
    (Entry.generate none "hi" (some .null)).exec keyless acceptsAll "openai" "gpt-5" 0 =
      some (.ok (greeted .bestEffort .enforced),
        [OpenAi.body .openAi "gpt-5" (greet (some .null)) false none]) := by
  have hsent : OpenAi.generate acceptsAll "gpt-5" (greet (some .null)) false none [] =
      (.ok { gen := greeted .bestEffort .enforced },
        [OpenAi.body .openAi "gpt-5" (greet (some .null)) false none]) := rfl
  rcases generateRetrying_openai (fun _ => rfl) hsent (fun _ he => nomatch he) with ⟨tries, hrun⟩
  unfold Entry.exec Engine.generate generateChat
  simp only [hrun, Option.bind_some]
  rfl

/-- The theorem at a schema that is taken. -/
theorem stamp_truthful_acceptsAll :
    ∃ served, [OpenAi.body .openAi "gpt-5" (greet (some .null)) false none].getLast? = some served ∧
      (greeted .bestEffort .enforced).determinism.rank ≤ served.pinning.rank ∧
      (TruthfulStamps (some .null) served (greeted .bestEffort .enforced) ↔
        StampsKept (routeOf keyless "openai") acceptsAll (.generate none "hi" (some .null))) :=
  stamp_truthful_iff exec_acceptsAll

/-- A pinned request that is rejected is repeated without its schema, and the outcome reads as if
none had been asked for. -/
theorem exec_rejectsFirst :
    (Entry.generateDeterministic none "hi" (some .null)).exec keyless rejectsFirst "openai" "gpt-5"
        0 =
      some (.ok (greeted .bestEffort .notRequested),
        [OpenAi.body .openAi "gpt-5" (greet (some .null)) true none,
          OpenAi.body .openAi "gpt-5" (greet none) false none]) := by
  have hrejected : OpenAi.generate rejectsFirst "gpt-5" (greet (some .null)) true none [] =
      (.error (.badRequest "openai" 400 "schema"),
        [OpenAi.body .openAi "gpt-5" (greet (some .null)) true none]) := rfl
  have hserved : OpenAi.generate rejectsFirst "gpt-5" (greet none) false none
      [OpenAi.body .openAi "gpt-5" (greet (some .null)) true none] =
      (.ok { gen := greeted .bestEffort .notRequested },
        [OpenAi.body .openAi "gpt-5" (greet (some .null)) true none,
          OpenAi.body .openAi "gpt-5" (greet none) false none]) := rfl
  have hterminal : ∀ e : EngineError, (Except.error (.badRequest "openai" 400 "schema") :
      Except EngineError ChatOutcome) = .error e → e.isRetryable = false := by
    intro e he
    rw [← Except.error.inj he]
    rfl
  rcases generateRetrying_openai (fun _ => rfl) hrejected hterminal with ⟨tries, hfirst⟩
  rcases generateRetrying_openai (fun _ => rfl) hserved (fun _ he => nomatch he) with
    ⟨tries', hsecond⟩
  unfold Entry.exec Engine.generateDeterministic
  simp only [hfirst, Option.bind_some, isBadRequest, if_true]
  simp only [hsecond]
  rfl

/-- **The stamp of a shed schema is lost** where pinning was asked for. -/
theorem rejectsFirst_stamp_untrue :
    ¬ ∀ (env : EngineEnv) (b : Behaviour) (provider model : String) (now : Instant) (entry : Entry)
      (o : StampedOutcome) (w : Wire) (served : WireCall),
      entry.exec env b provider model now = some (.ok o, w) → w.getLast? = some served →
        TruthfulStamps entry.asked served o := by
  intro h
  have hstamps := h keyless rejectsFirst "openai" "gpt-5" 0
    (.generateDeterministic none "hi" (some .null)) _ _ _ exec_rejectsFirst rfl
  have hnone := hstamps.notRequested.1 rfl
  cases hnone

end LightTrack.Engine
