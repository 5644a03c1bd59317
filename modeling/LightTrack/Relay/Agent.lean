import LightTrack.Gateway.Failover
import LightTrack.Relay.Action
import LightTrack.Relay.Task

/-! # The device

What a device does with a task it was leased: what the answers to its renewals mean, which run of
the model comes of an action, and what is reported.  Producing a result and delivering it are two
steps, and the lease is asked about in between.

* `interrupt_classify` : which answers stop a run,
* `execute_agrees` : a run that is started was authorised on the device,
* `status_of_delivery`, `execute_connector` : what waits for delivery.
-/

namespace LightTrack.Agent

open Engine

/-! ## What a lease answer means -/

/-- `Verdict` -/
inductive Verdict where
  | held (deadline : Option Time)
  | stop (reason : String)
  | reclaimed (status : Option RelayStatus)
  | noSuchTask
  | unknown (err : String)

/-- `Answer`, and the lease verdict its body reads as. -/
structure Answer where
  status : ℕ
  body : String
  held : Option LeaseHeld

/-- `truncate` -/
def truncate (s : String) : String :=
  if s.length ≤ 300 then s
  else String.ofList (s.toList.take 300) ++ s!"… ({s.utf8ByteSize} bytes)"

/-- `from_http`: what is not recognised decides nothing. -/
def fromHttp (a : Answer) : Verdict :=
  if 200 ≤ a.status ∧ a.status ≤ 299 then
    match a.held with
    | some (.held _ true) => .stop "an operator cancelled this task"
    | some (.held deadline false) => .held deadline
    | _ => .held none
  else if a.status = 409 then
    .reclaimed (match a.held with
      | some (.notHeld status _) => some status
      | _ => none)
  else if a.status = 404 then .noSuchTask
  else .unknown (s!"HTTP {a.status}: " ++ truncate a.body)

/-- `classify`: a request that failed says nothing of the lease. -/
def classify : Except String Answer → Verdict
  | .ok a => fromHttp a
  | .error e => .unknown e

/-- `Interrupt` -/
inductive Interrupt where
  | cancelled
  | lost
  deriving DecidableEq

/-- What a verdict on a renewal means for the run. -/
def Verdict.interrupt : Verdict → Option Interrupt
  | held _ => none
  | stop _ => some .cancelled
  | reclaimed _ | noSuchTask => some .lost
  | unknown _ => none

/-- `Settlement` -/
inductive Settlement where
  | deliverAndSettle
  | settleOnly
  | abandon
  deriving DecidableEq

/-- `settlement` -/
def settlement : Option Interrupt → Settlement
  | none => .deliverAndSettle
  | some .cancelled => .settleOnly
  | some .lost => .abandon

theorem settlement_eq_settleOnly {stop : Option Interrupt} :
    settlement stop = .settleOnly ↔ stop = some .cancelled := by
  rcases stop with _ | _ | _ <;> simp [settlement]

theorem settlement_eq_deliverAndSettle {stop : Option Interrupt} :
    settlement stop = .deliverAndSettle ↔ stop = none := by
  rcases stop with _ | _ | _ <;> simp [settlement]

/-- `verdict`: the answer of the lease doors. A refusal is wrapped, and reads as no lease verdict. -/
def leaseAnswer (body : String) (held : LeaseHeld) : Answer :=
  match held with
  | .held _ _ => { status := 200, body, held := some held }
  | .notHeld _ _ => { status := 409, body, held := none }
  | .noSuchRecord => { status := 404, body, held := none }

theorem interrupt_fromHttp (b : Answer) :
    ((fromHttp b).interrupt = some .cancelled ↔ 200 ≤ b.status ∧ b.status ≤ 299 ∧
      ∃ deadline, b.held = some (.held deadline true)) ∧
    ((fromHttp b).interrupt = some .lost ↔ b.status = 409 ∨ b.status = 404) := by
  unfold fromHttp
  by_cases hok : 200 ≤ b.status ∧ b.status ≤ 299
  · rw [if_pos hok]
    have hne : ¬ (b.status = 409 ∨ b.status = 404) := by omega
    rcases hheld : b.held with _ | ⟨deadline, _ | _⟩ | _ | _ <;>
      simp [Verdict.interrupt, hne, hok]
  · rw [if_neg hok, ← and_assoc]
    by_cases hconflict : b.status = 409
    · simp [hconflict, Verdict.interrupt]
    · by_cases hgone : b.status = 404
      · simp [hgone, Verdict.interrupt]
      · simp only [hconflict, hgone, if_false, Verdict.interrupt]
        simp [hok]

/-- **Which answers stop a run**: a cancel that was read from a success, and the two refusals. -/
theorem interrupt_classify (a : Except String Answer) :
    ((classify a).interrupt = some .cancelled ↔
      ∃ b, a = .ok b ∧ 200 ≤ b.status ∧ b.status ≤ 299 ∧
        ∃ deadline, b.held = some (.held deadline true)) ∧
    ((classify a).interrupt = some .lost ↔
      ∃ b, a = .ok b ∧ (b.status = 409 ∨ b.status = 404)) := by
  cases a with
  | error e => simp [classify, Verdict.interrupt]
  | ok b => simpa [classify] using interrupt_fromHttp b

/-- The lease doors' answers: only what is held without a cancel lets a run go on. -/
theorem interrupt_leaseAnswer (body : String) (held : LeaseHeld) :
    (classify (.ok (leaseAnswer body held))).interrupt =
      match held with
      | .held _ false => none
      | .held _ true => some .cancelled
      | .notHeld _ _ | .noSuchRecord => some .lost := by
  rcases held with ⟨deadline, _ | _⟩ | _ | _ <;> rfl

/-! ## Reports -/

/-- How a run ended, as it is reported. -/
inductive RunStatus where
  | succeeded
  | failed
  | deferred
  deriving DecidableEq

/-- The status on the wire. -/
def RunStatus.asStr : RunStatus → String
  | succeeded => "succeeded"
  | failed => "failed"
  | deferred => "deferred"

/-- `RunReport` -/
structure RunReport where
  status : RunStatus
  result : Json := .null
  error : Option String := none
  retryAfterSecs : Option ℕ := none
  model : Option String := none
  inputTokens : Option ℕ := none
  outputTokens : Option ℕ := none
  latencyMs : Option ℕ := none
  costUsd : Option ℚ := none
  mode : Option String := none
  promptSha256 : Option String := none
  actionVersion : Option String := none
  renderedPrompt : Option String := none
  resultText : Option String := none

/-- `PromptIdentity` -/
structure PromptIdentity where
  promptSha256 : String
  actionVersion : Option String
  renderedPrompt : Option String

/-- `PromptIdentity::new` -/
def PromptIdentity.new (sha256Hex : String → String) (prompt : String) (version : Option String)
    (reportIo : Bool) : PromptIdentity where
  promptSha256 := sha256Hex prompt
  actionVersion := version
  renderedPrompt := if reportIo then some prompt else none

namespace RunReport

/-- `failed` -/
def failed (error : String) : RunReport := { status := .failed, error := some error }

/-- `deferred` -/
def deferred (reason : String) : RunReport := { failed reason with status := .deferred }

/-- `stamp` -/
def stamp (report : RunReport) (id : PromptIdentity) : RunReport :=
  { report with
    promptSha256 := some id.promptSha256
    actionVersion := id.actionVersion
    renderedPrompt := id.renderedPrompt }

@[simp] theorem failed_status (error : String) : (failed error).status = .failed := rfl

@[simp] theorem deferred_status (reason : String) : (deferred reason).status = .deferred := rfl

@[simp] theorem stamp_status (report : RunReport) (id : PromptIdentity) :
    (report.stamp id).status = report.status := rfl

@[simp] theorem stamp_result (report : RunReport) (id : PromptIdentity) :
    (report.stamp id).result = report.result := rfl

end RunReport

/-- `post_result`: what a reported status asks the queue to write. -/
def relayOutcome (status : String) (result : Json) (error : Option String)
    (retryAfterSecs : Option ℕ) : Except String RelayOutcome :=
  if status = "succeeded" then .ok (.succeeded result)
  else if status = "failed" then .ok (.failed (error.getD "unspecified error"))
  else if status = "deferred" then .ok (.deferred retryAfterSecs error)
  else .error s!"status must be succeeded|failed|deferred, got '{status}'"

/-- What a report asks the queue to write. -/
def RunReport.outcome (report : RunReport) : RelayOutcome :=
  match report.status with
  | .succeeded => .succeeded report.result
  | .failed => .failed (report.error.getD "unspecified error")
  | .deferred => .deferred report.retryAfterSecs report.error

/-- No report is refused for its status. -/
theorem relayOutcome_report (report : RunReport) :
    relayOutcome report.status.asStr report.result report.error report.retryAfterSecs =
      .ok report.outcome := by
  unfold RunReport.outcome
  cases report.status <;> rfl

/-! ## Producing a result -/

/-- `Pending`: a result that has not been delivered. -/
structure Pending where
  spec : ConnectorSpec
  envelope : Json

/-- `Pending::new` -/
def Pending.new (spec : ConnectorSpec) (task : RelayTask) (result : Json) (model : String) :
    Pending where
  spec
  envelope := .obj
    [("task_id", .str task.id), ("action_type", .str task.actionType),
      ("idempotency_key", (task.idempotencyKey.map Json.str).getD .null),
      ("source", (task.source.map Json.str).getD .null), ("params", task.payload),
      ("result", result), ("model", .str model)]

/-- `Produced` -/
structure Produced where
  report : RunReport
  identity : Option PromptIdentity
  delivery : Option Pending

/-- A device: its files, its machine, and its configuration. -/
structure Host where
  files : Files
  machine : Machine
  rd : JsonReader
  sha256Hex : String → String
  /-- `Display` of an error. -/
  display : EngineError → String
  actionsDir : String
  workspacesRoot : Option String
  bare : Bool

/-- `rate_limited` -/
def rateLimited : EngineError → Bool
  | .nonZero _ stderr =>
    let s := toLowercase stderr
    Gateway.containsText s "usage limit" || Gateway.containsText s "rate limit" ||
      Gateway.containsText s "429" || Gateway.containsText s "overloaded"
  | _ => false

/-- The call of the model that an action is. -/
def invocationOf (host : Host) (action : Action) (prompt : String) (workspace : Option String) :
    Invocation where
  prompt
  model := action.spec.model
  mode := action.spec.mode
  cwd := workspace
  allowedTools := action.spec.allowedTools
  permissionMode := action.spec.permissionMode
  system := action.spec.system
  schema := action.schema
  budgetUsd := action.spec.maxBudgetUsd
  timeoutSecs := action.spec.timeoutSecs.getD 600
  bare := host.bare

/-- What a run that came back clean answers with. -/
def readResult (host : Host) (action : Action) (out : RawOutcome) : Except String Json :=
  match action.schema with
  | some _ =>
    match host.rd.fromStr out.text with
    | some v => .ok v
    | none => .error ("schema output is not JSON: " ++ out.text)
  | none => .ok (.obj [("text", .str out.text)])

/-- What is reported of a call of the model, and what waits for delivery. -/
def reportOf (host : Host) (task : RelayTask) (action : Action) :
    Except EngineError RawOutcome → RunReport × Option Pending
  | .error e =>
    if rateLimited e then (.deferred ("claude: " ++ host.display e), none)
    else (.failed ("claude: " ++ host.display e), none)
  | .ok out =>
    if !out.ok then
      (.failed (s!"claude reported an error (subtype={out.subtype}): " ++
        if out.text = "" then out.stderr else out.text), none)
    else
      match readResult host action out with
      | .error e => (.failed e, none)
      | .ok result =>
        ({ status := .succeeded
           resultText := if action.spec.reportIo then some out.text else none
           result
           model := some out.model
           inputTokens := out.inputTokens
           outputTokens := out.outputTokens
           latencyMs := out.latencyMs
           costUsd := out.costUsd
           mode := some action.spec.mode.asStr },
          action.spec.connector.map fun c => .new c task result out.model)

/-- `run` -/
def runAction (host : Host) (task : RelayTask) (action : Action) (prompt : String) :
    RunReport × Option Pending :=
  match resolveWorkspace host.files host.workspacesRoot action.spec.workspace action.spec.mode with
  | .error e => (.failed ("action posture: " ++ e), none)
  | .ok workspace =>
    reportOf host task action (run host.rd host.machine (invocationOf host action prompt workspace))

/-- `unstamped` -/
def unstamped (error : String) : Produced where
  report := .failed error
  identity := none
  delivery := none

/-- `execute` -/
def execute (host : Host) (task : RelayTask) : Produced :=
  match load host.files host.actionsDir task.actionType with
  | .error e => unstamped ("action: " ++ e)
  | .ok action =>
    match render action.promptTemplate task with
    | .error e => unstamped ("prompt: " ++ e)
    | .ok prompt =>
      let identity := PromptIdentity.new host.sha256Hex prompt action.spec.version
        action.spec.reportIo
      let (report, delivery) := runAction host task action prompt
      { report := report.stamp identity, identity := some identity, delivery }

/-- `propagate`, under what the connector answered. -/
def propagate (produced : Produced) (delivered : Except String Unit) : RunReport :=
  match produced.delivery with
  | none => produced.report
  | some _ =>
    match delivered with
    | .ok _ => produced.report
    | .error e =>
      let report := RunReport.failed ("connector: " ++ e)
      match produced.identity with
      | some id => report.stamp id
      | none => report

/-! ## What waits for delivery -/

theorem reportOf_delivery {host : Host} {task : RelayTask} {action : Action}
    {r : Except EngineError RawOutcome} {d : Pending}
    (h : (reportOf host task action r).2 = some d) :
    (reportOf host task action r).1.status = .succeeded := by
  cases r with
  | error e =>
    unfold reportOf at h
    dsimp only at h
    split_ifs at h
  | ok out =>
    unfold reportOf at h ⊢
    dsimp only at h ⊢
    by_cases hok : (!out.ok) = true
    · rw [if_pos hok] at h
      cases h
    · rw [if_neg hok] at h ⊢
      cases hresult : readResult host action out with
      | error e =>
        rw [hresult] at h
        cases h
      | ok result => rfl

theorem reportOf_succeeded {host : Host} {task : RelayTask} {action : Action}
    {r : Except EngineError RawOutcome}
    (h : (reportOf host task action r).1.status = .succeeded) :
    (reportOf host task action r).2.isSome = action.spec.connector.isSome := by
  cases r with
  | error e =>
    unfold reportOf at h
    dsimp only at h
    split_ifs at h <;> cases h
  | ok out =>
    unfold reportOf at h ⊢
    dsimp only at h ⊢
    by_cases hok : (!out.ok) = true
    · rw [if_pos hok] at h
      cases h
    · rw [if_neg hok] at h ⊢
      cases hresult : readResult host action out with
      | error e =>
        rw [hresult] at h
        cases h
      | ok result => exact Option.isSome_map

/-- Only what succeeded waits for delivery. -/
theorem status_of_delivery {host : Host} {task : RelayTask} {d : Pending}
    (h : (execute host task).delivery = some d) :
    (execute host task).report.status = .succeeded := by
  unfold execute at h ⊢
  split at h
  · cases h
  · split at h
    · cases h
    · unfold runAction at h ⊢
      dsimp only at h ⊢
      split at h
      · cases h
      · exact reportOf_delivery h

/-- What succeeded waits for delivery exactly if its action declares a connector. -/
theorem execute_connector {host : Host} {task : RelayTask}
    (h : (execute host task).report.status = .succeeded) :
    ∃ action, load host.files host.actionsDir task.actionType = .ok action ∧
      (execute host task).delivery.isSome = action.spec.connector.isSome := by
  unfold execute at h ⊢
  split at h
  · cases h
  next action hload =>
    refine ⟨action, hload, ?_⟩
    split at h
    · cases h
    · unfold runAction at h ⊢
      dsimp only at h ⊢
      split at h
      · cases h
      · exact reportOf_succeeded h

/-! ## What a device starts -/

/-- A run that was authorised on the device: its options are those of an action in the library, and
it works outside every repository or in a directory below the operator's root. -/
def Authorised (host : Host) (p : Plan) : Prop :=
  ∃ actionType action o, load host.files host.actionsDir actionType = .ok action ∧
    Options.read p.args {} = some o ∧
    (∀ t ∈ o.allowedTools, t ∈ action.spec.allowedTools ∨
      action.spec.mode = .readonlyScan ∧ t ∈ READONLY_BASE_TOOLS) ∧
    o.permissionMode = action.spec.permissionMode ∧ o.system = action.spec.system ∧
    (action.spec.mode = .generate ∧ host.machine.neutralCwd = .ok p.cwd ∨
      ∃ root, host.workspacesRoot = some root ∧ host.files.isDir p.cwd = true ∧ Below root p.cwd)

/-- The tools of a run are its action's, and the base tools of a scan. -/
theorem mem_allowlist {inv : Invocation} {t : String} (h : t ∈ allowlist inv) :
    t ∈ inv.allowedTools ∨ inv.mode = .readonlyScan ∧ t ∈ READONLY_BASE_TOOLS := by
  unfold allowlist at h
  cases hmode : inv.mode with
  | generate =>
    rw [hmode] at h
    exact absurd h List.not_mem_nil
  | readonlyScan =>
    rw [hmode] at h
    rcases ((foldl_pushTool _ _ (by decide)).2.2 t).1 h with h | h
    · exact .inr ⟨rfl, h⟩
    · exact .inl h
  | edit =>
    rw [hmode] at h
    rcases ((foldl_pushTool _ _ List.nodup_nil).2.2 t).1 h with h | h
    · exact absurd h List.not_mem_nil
    · exact .inl h

theorem authorised_plan {host : Host} {actionType prompt : String} {action : Action}
    {workspace : Option String} {p : Plan}
    (hload : load host.files host.actionsDir actionType = .ok action)
    (hworkspace : resolveWorkspace host.files host.workspacesRoot action.spec.workspace
      action.spec.mode = .ok workspace)
    (hplan : plan host.machine.neutralCwd (invocationOf host action prompt workspace) = .ok p) :
    Authorised host p := by
  have hposture := postured_of_plan hplan
  refine ⟨actionType, action, _, hload, (plan_eq_ok hplan).2.2, fun t ht => mem_allowlist ht, rfl, rfl, ?_⟩
  unfold Postured at hposture
  rcases resolveWorkspace_eq_ok hworkspace with ⟨hmode, -⟩ | ⟨root, path, hroot, hdir, hisDir, hbelow⟩
  · have hmode' : (invocationOf host action prompt workspace).mode = .generate := hmode
    rw [hmode'] at hposture
    exact .inl ⟨hmode, hposture.1⟩
  · cases hmode : action.spec.mode with
    | generate =>
      have hmode' : (invocationOf host action prompt workspace).mode = .generate := hmode
      rw [hmode'] at hposture
      exact .inl ⟨rfl, hposture.1⟩
    | _ =>
      have hmode' : (invocationOf host action prompt workspace).mode = _ := hmode
      rw [hmode'] at hposture
      have hcwd : some path = some p.cwd := hdir.symm.trans hposture.1
      rw [← Option.some.inj hcwd]
      exact .inr ⟨root, hroot, hisDir, hbelow⟩

/-- The device with another machine to start children on. -/
def Host.withSpawn (host : Host) (spawn : Plan → String → ℕ → Except EngineError Exit) : Host :=
  { host with machine := { host.machine with spawn } }

section Agrees

variable {host : Host} {spawn : Plan → String → ℕ → Except EngineError Exit}

@[simp] theorem withSpawn_files : (host.withSpawn spawn).files = host.files := rfl

@[simp] theorem withSpawn_workspacesRoot :
    (host.withSpawn spawn).workspacesRoot = host.workspacesRoot := rfl

@[simp] theorem withSpawn_actionsDir : (host.withSpawn spawn).actionsDir = host.actionsDir := rfl

@[simp] theorem withSpawn_sha256Hex : (host.withSpawn spawn).sha256Hex = host.sha256Hex := rfl

@[simp] theorem reportOf_withSpawn (task : RelayTask) (action : Action) :
    reportOf (host.withSpawn spawn) task action = reportOf host task action := by
  funext r
  cases r <;> rfl

/-- A call is started as its plan, or not at all. -/
theorem run_agrees (inv : Invocation) (h : ∀ p, plan host.machine.neutralCwd inv = .ok p →
    spawn p = host.machine.spawn p) :
    run host.rd { host.machine with spawn } inv = run host.rd host.machine inv := by
  show (plan host.machine.neutralCwd inv).bind _ = (plan host.machine.neutralCwd inv).bind _
  cases hplan : plan host.machine.neutralCwd inv with
  | error e => rfl
  | ok p =>
    show (applyAuth host.machine inv.bare).bind (fun _ => (spawn p inv.prompt _).bind _) = _
    rw [h p hplan]
    rfl

theorem runAction_agrees {task : RelayTask} {action : Action} {actionType : String}
    (hload : load host.files host.actionsDir actionType = .ok action)
    (h : ∀ p, Authorised host p → spawn p = host.machine.spawn p) (prompt : String) :
    runAction (host.withSpawn spawn) task action prompt = runAction host task action prompt := by
  unfold runAction
  rw [withSpawn_files, withSpawn_workspacesRoot, reportOf_withSpawn]
  cases hworkspace : resolveWorkspace host.files host.workspacesRoot action.spec.workspace
    action.spec.mode with
  | error e => rfl
  | ok workspace =>
    have hrun := run_agrees (invocationOf host action prompt workspace) fun p hplan =>
      h p (authorised_plan hload hworkspace hplan)
    exact congrArg (reportOf host task action) hrun

end Agrees

/-- **A device starts only what it authorised**: whatever a task asks for, what becomes of it does
not depend on how the machine would run a child with options that are not those of an action in the
library, or in a directory that is not below the operator's root. -/
theorem execute_agrees (host : Host) (task : RelayTask)
    (spawn : Plan → String → ℕ → Except EngineError Exit)
    (h : ∀ p, Authorised host p → spawn p = host.machine.spawn p) :
    execute (host.withSpawn spawn) task = execute host task := by
  unfold execute
  rw [withSpawn_files, withSpawn_actionsDir, withSpawn_sha256Hex]
  cases hload : load host.files host.actionsDir task.actionType with
  | error e => rfl
  | ok action =>
    dsimp only
    cases render action.promptTemplate task with
    | error e => rfl
    | ok prompt =>
      dsimp only
      rw [runAction_agrees hload h prompt]

/-- A device with one action, whose result is piped to an app. -/
def sampleHost : Host where
  files :=
    { isDir := fun _ => true
      pathExists := fun _ => true
      readToString := fun path =>
        if path = "actions/app/ask/prompt.md" then .ok "Ask \x7b\x7bparams.who\x7d\x7d"
        else .ok ""
      fromToml := fun _ => .ok { connector := some (.command ["notify"]) } }
  machine :=
    { neutralCwd := .ok "/tmp"
      apiKey := false
      spawn := fun _ _ _ => .ok
        { success := true, code := some 0, stdout := "answer", stderr := "", latencyMs := 5 } }
  rd := { fromStr := fun s => some (.obj [("result", .str s)]), f64Of := fun _ => 0 }
  sha256Hex := fun s => s
  display := fun _ => "error"
  actionsDir := "actions"
  workspacesRoot := none
  bare := false

/-- A machine that refuses to work in one directory. -/
def guardedSpawn (p : Plan) (prompt : String) (secs : ℕ) : Except EngineError Exit :=
  if p.cwd = "/etc" then .error (.other "refused") else sampleHost.machine.spawn p prompt secs

/-- A task for that action. -/
def sampleTask : RelayTask :=
  EnqueueReq.task
    { id := "t", projectId := "p", actionType := "app/ask", payload := .obj [("who", .str "me")] } 0

theorem execute_agrees_guarded :
    execute (sampleHost.withSpawn guardedSpawn) sampleTask = execute sampleHost sampleTask := by
  refine execute_agrees sampleHost sampleTask guardedSpawn fun p h => ?_
  obtain ⟨actionType, action, o, -, -, -, -, -, ⟨-, hneutral⟩ | ⟨root, hroot, -⟩⟩ := h
  · have hcwd : "/tmp" = p.cwd := Except.ok.inj hneutral
    funext prompt secs
    unfold guardedSpawn
    rw [if_neg]
    rw [← hcwd]
    decide
  · cases hroot

end LightTrack.Agent
