import LightTrack.Core.Text
import LightTrack.Engine.Error
import LightTrack.Engine.Providers
import LightTrack.Engine.Sample
import LightTrack.Lib.Decimal

/-! # Headless runs

Every headless `claude -p` run goes through one seam: `plan` decides from the mode of a run which
tools it has, in which directory it works and with which arguments it is started, or refuses it.

* `plan_eq_ok` : no argument of an accepted run swallows another,
* `plan_posture` : what the modes promise, for every accepted run.
-/

namespace LightTrack.Engine

/-- `Mode` -/
inductive Mode where
  | generate
  | readonlyScan
  | edit
  deriving DecidableEq

/-- `Mode::as_str` -/
def Mode.asStr : Mode → String
  | generate => "generate"
  | readonlyScan => "readonly-scan"
  | edit => "edit"

/-- `Invocation` -/
structure Invocation where
  prompt : String
  model : String
  mode : Mode
  cwd : Option String := none
  allowedTools : List String := []
  permissionMode : Option String := none
  system : Option String := none
  schema : Option String := none
  effort : Option String := none
  budgetUsd : Option ℚ := none
  timeoutSecs : ℕ := 600
  bare : Bool := false

/-! ## Tools -/

/-- `READONLY_BASE_TOOLS`. -/
def READONLY_BASE_TOOLS : List String := ["Read", "Glob", "Grep", "LS"]

/-- `READONLY_BASH_PREFIXES`. -/
def READONLY_BASH_PREFIXES : List String :=
  ["git log", "git diff", "git show", "git status", "git blame", "git ls-files", "ls", "cat",
    "head", "tail", "wc", "rg", "grep", "find"]

/-- `READONLY_TOOL_NAMES`. -/
def READONLY_TOOL_NAMES : List String :=
  ["Read", "Glob", "Grep", "LS", "NotebookRead", "WebFetch", "WebSearch"]

/-- Take `p` off the front as often as it is there, `n` times at most. -/
def dropRepeated (p : List Char) : ℕ → List Char → List Char
  | 0, cs => cs
  | n + 1, cs => if p.isPrefixOf cs then dropRepeated p n (cs.drop p.length) else cs

/-- `str::trim_end_matches` -/
def trimEndMatches (pat s : String) : String :=
  String.ofList (dropRepeated pat.toList.reverse s.length s.toList.reverse).reverse

/-- `is_readonly_tool` -/
def isReadonlyTool (tool : String) : Bool :=
  match stripPrefix "Bash(" tool with
  | some rest =>
    let inner := strTrim (trimEndMatches ":*" (trimEndMatches ")" rest))
    READONLY_BASH_PREFIXES.any fun p => p.toList.isPrefixOf inner.toList
  | none => decide (tool ∈ READONLY_TOOL_NAMES)

/-- One tool more, unless it is there. -/
def pushTool (out : List String) (tool : String) : List String :=
  if tool ∈ out then out else out ++ [tool]

/-- `allowlist` -/
def allowlist (inv : Invocation) : List String :=
  match inv.mode with
  | .generate => []
  | .readonlyScan => inv.allowedTools.foldl pushTool READONLY_BASE_TOOLS
  | .edit => inv.allowedTools.foldl pushTool []

/-! ## Posture -/

/-- `Effort::EXPECTED` -/
def EXPECTED : String := "low|medium|high|xhigh|max"

/-- `{:?}` of a list of texts; of the escapes, those of the quote and the backslash. -/
def debugTexts (texts : List String) : String :=
  let quoted := fun s : String => "\"" ++ String.ofList (s.toList.flatMap fun c =>
    if c = '"' ∨ c = '\\' then ['\\', c] else [c]) ++ "\""
  "[" ++ ", ".intercalate (texts.map quoted) ++ "]"

/-- The directory an accepted run of a mode works in. `neutral` is the directory outside every
repository. -/
def checkMode (neutral : Except EngineError String) (inv : Invocation) :
    Except EngineError String :=
  match inv.mode with
  | .generate =>
    if inv.allowedTools ≠ [] then
      .error (.posture ("generate runs take no tools, got " ++ debugTexts inv.allowedTools))
    else match inv.permissionMode, inv.cwd with
      | some mode, _ =>
        .error (.posture s!"generate runs take no permission mode, got '{mode}'")
      | none, some cwd => .error (.posture s!"generate runs take no workspace, got '{cwd}'")
      | none, none => neutral
  | .readonlyScan =>
    match inv.allowedTools.find? fun tool => !isReadonlyTool tool with
    | some tool => .error (.posture s!"readonly-scan cannot allow '{tool}' — it can write")
    | none =>
      match inv.permissionMode.filter fun m => m != "plan" && m != "default" with
      | some other =>
        .error (.posture s!"readonly-scan permission mode must be plan|default, got '{other}'")
      | none =>
        match inv.cwd with
        | some cwd => .ok cwd
        | none => .error (.posture "readonly-scan requires an explicit workspace")
  | .edit =>
    match inv.cwd, inv.permissionMode with
    | none, _ => .error (.posture "edit runs require an explicit workspace")
    | some _, none =>
      .error (.posture "edit runs require an explicit permission mode (e.g. acceptEdits)")
    | some cwd, some mode =>
      if mode = "" then .error (.posture "edit runs require a non-empty permission mode")
      else .ok cwd

/-- `check` -/
def check (neutral : Except EngineError String) (inv : Invocation) : Except EngineError String :=
  match inv.effort.filter fun e => (Effort.parse e).isNone with
  | some effort => .error (.posture s!"unknown effort '{effort}' (expected {EXPECTED})")
  | none =>
    if inv.budgetUsd.any fun b => decide (b ≤ 0) then
      .error (.posture "budget_usd must be positive when set")
    else checkMode neutral inv

/-- `Plan` -/
structure Plan where
  args : List String
  cwd : String
  strictExit : Bool

/-- `{budget:.2}`: two decimals, ties to even. -/
def fixed2 (q : ℚ) : String :=
  let scaled := |q| * 100
  let low := ⌊scaled⌋.toNat
  let rest := scaled - low
  let n := if rest < 1 / 2 then low else if 1 / 2 < rest then low + 1 else low + low % 2
  (if q < 0 then "-" else "") ++ toString (n / 100) ++ "." ++
    String.ofList (Decimal.fixed 2 (n % 100))

/-- The effort a run is started with: its own, or the one its model names. -/
def effortOf (inv : Invocation) : Option String :=
  inv.effort.or ((splitEffort inv.model).2.map Effort.asStr)

/-- A flag and its value, where there is one. -/
def flagged (flag : String) : Option String → List String
  | some value => [flag, value]
  | none => []

/-- `plan`. The tools come last: they take what follows. -/
def plan (neutral : Except EngineError String) (inv : Invocation) : Except EngineError Plan := do
  let cwd ← check neutral inv
  let tools := allowlist inv
  return {
    args := ["-p", "--output-format", "json", "--model", (splitEffort inv.model).1] ++
      (flagged "--effort" (effortOf inv) ++ (flagged "--append-system-prompt" inv.system ++
        (flagged "--json-schema" inv.schema ++ (flagged "--permission-mode" inv.permissionMode ++
          (flagged "--max-budget-usd" (inv.budgetUsd.map fixed2) ++
            ((if inv.bare then ["--bare"] else []) ++
              if tools.isEmpty then [] else "--allowedTools" :: tools))))))
    cwd
    strictExit := decide (inv.mode = .generate) }

/-! ## Running -/

/-- How a child ended, and what it wrote: `stderr` trimmed. -/
structure Exit where
  success : Bool
  code : Option Int
  stdout : String
  stderr : String
  latencyMs : ℕ

/-- `RawOutcome` -/
structure RawOutcome where
  text : String
  json : Option Json
  model : String
  costUsd : Option ℚ
  inputTokens : Option ℕ
  outputTokens : Option ℕ
  latencyMs : Option ℕ
  raw : Json
  exitOk : Bool
  isError : Bool
  subtype : String
  stderr : String

/-- `RawOutcome::ok` -/
def RawOutcome.ok (out : RawOutcome) : Bool := out.exitOk && !out.isError

/-- `structured` -/
def structured (envelope : Json) : Option Json :=
  (envelope.get "structured_output").filter fun v => !v.isNull

/-- `completion_text` -/
def completionText (envelope : Json) : String :=
  match structured envelope with
  | some v => v.render
  | none => (envelope.getStr "result").getD ""

/-- `token_counts`: what was read from and written to a cache is input too. -/
def tokenCounts (envelope : Json) : Option ℕ × Option ℕ :=
  let usage := envelope.get "usage"
  let count := fun (u : Json) (k : String) => ((u.get k).bind Json.asU64).getD 0
  (usage.map fun u =>
      count u "input_tokens" + count u "cache_read_input_tokens" +
        count u "cache_creation_input_tokens",
    usage.bind fun u => (u.get "output_tokens").bind Json.asU64)

/-- `model_of` -/
def modelOf (envelope : Json) (fallback : String) : String :=
  (envelope.getStr "model").getD fallback

/-- What a machine answers: the directory outside every repository, whether there is a key in the
environment, and what becomes of a child with a plan, a prompt and so many seconds. -/
structure Machine where
  neutralCwd : Except EngineError String
  apiKey : Bool
  spawn : Plan → String → ℕ → Except EngineError Exit

/-- `apply_auth` -/
def applyAuth (host : Machine) (bare : Bool) : Except EngineError Unit :=
  if bare && !host.apiKey then
    .error (.posture ("--bare bypasses subscription OAuth, so it requires ANTHROPIC_API_KEY in " ++
      "the environment"))
  else .ok ()

/-- What a child that ended left behind. -/
def readExit (rd : JsonReader) (plan : Plan) (model : String) (e : Exit) :
    Except EngineError RawOutcome :=
  match rd.fromStr e.stdout with
  | none =>
    if e.success then .error (.parse ("envelope not JSON; stdout was: " ++ e.stdout))
    else .error (.nonZero (e.code.getD (-1))
      (if e.stderr = "" then "no JSON envelope" else e.stderr))
  | some raw =>
    let isError := ((raw.get "is_error").bind Json.asBool).getD !e.success
    if plan.strictExit && !e.success then .error (.nonZero (e.code.getD (-1)) e.stderr)
    else .ok
      { text := completionText raw
        json := structured raw
        model := modelOf raw model
        costUsd := (raw.get "total_cost_usd").bind (asF64 rd)
        inputTokens := (tokenCounts raw).1
        outputTokens := (tokenCounts raw).2
        latencyMs := some e.latencyMs
        raw
        exitOk := e.success
        isError
        subtype := (raw.getStr "subtype").getD ""
        stderr := if e.success && !isError then "" else e.stderr }

/-- `run`: nothing is started that has no plan. -/
def run (rd : JsonReader) (host : Machine) (inv : Invocation) : Except EngineError RawOutcome := do
  let p ← plan host.neutralCwd inv
  applyAuth host inv.bare
  let e ← host.spawn p inv.prompt inv.timeoutSecs
  readExit rd p inv.model e

/-! ## What the arguments say -/

/-- The options of a run. -/
structure Options where
  print : Bool := false
  outputFormat : Option String := none
  model : Option String := none
  effort : Option String := none
  system : Option String := none
  schema : Option String := none
  permissionMode : Option String := none
  budget : Option String := none
  bare : Bool := false
  allowedTools : List String := []

namespace Options

/-- An option that takes one value. -/
def set (o : Options) (flag value : String) : Option Options :=
  if flag = "--output-format" then some { o with outputFormat := some value }
  else if flag = "--model" then some { o with model := some value }
  else if flag = "--effort" then some { o with effort := some value }
  else if flag = "--append-system-prompt" then some { o with system := some value }
  else if flag = "--json-schema" then some { o with schema := some value }
  else if flag = "--permission-mode" then some { o with permissionMode := some value }
  else if flag = "--max-budget-usd" then some { o with budget := some value }
  else none

/-- Read arguments from the left. `--allowedTools` is variadic and takes the rest. -/
def read : List String → Options → Option Options
  | [], o => some o
  | flag :: args, o =>
    if flag = "-p" then read args { o with print := true }
    else if flag = "--bare" then read args { o with bare := true }
    else if flag = "--allowedTools" then some { o with allowedTools := args }
    else match args with
      | [] => none
      | value :: args =>
        match o.set flag value with
        | some o => read args o
        | none => none

/-- The flags that take no value, or all values. -/
def Special (flag : String) : Prop := flag = "-p" ∨ flag = "--bare" ∨ flag = "--allowedTools"

instance (flag : String) : Decidable (Special flag) :=
  inferInstanceAs (Decidable (flag = "-p" ∨ flag = "--bare" ∨ flag = "--allowedTools"))

theorem read_value {flag value : String} {args : List String} {o o' : Options}
    (hflag : ¬ Special flag) (h : o.set flag value = some o') :
    read (flag :: value :: args) o = read args o' := by
  unfold Special at hflag
  push Not at hflag
  rw [read, if_neg hflag.1, if_neg hflag.2.1, if_neg hflag.2.2, h]

/-- A flag that may be missing. -/
theorem read_flagged {args : List String} (flag : String) (put : Option String → Options)
    (hflag : ¬ Special flag) (hput : ∀ v, (put none).set flag v = some (put (some v)))
    (value : Option String) :
    read (flagged flag value ++ args) (put none) = read args (put value) := by
  cases value with
  | none => rfl
  | some v => exact read_value hflag (hput v)

theorem read_bare {args : List String} {o : Options} (bare : Bool) (h : o.bare = false) :
    read ((if bare then ["--bare"] else []) ++ args) o = read args { o with bare := bare } := by
  cases bare with
  | false =>
    refine congrArg (read args) ?_
    rw [← h]
  | true =>
    show read ("--bare" :: args) o = _
    cases args <;> simp [read]

theorem read_tools {o : Options} (tools : List String) (h : o.allowedTools = []) :
    read (if tools.isEmpty then [] else "--allowedTools" :: tools) o =
      some { o with allowedTools := tools } := by
  cases tools with
  | nil =>
    refine congrArg some ?_
    rw [← h]
  | cons tool tools => rfl

/-- What a run is started with. -/
def of (inv : Invocation) : Options where
  print := true
  outputFormat := some "json"
  model := some (splitEffort inv.model).1
  effort := effortOf inv
  system := inv.system
  schema := inv.schema
  permissionMode := inv.permissionMode
  budget := inv.budgetUsd.map fixed2
  bare := inv.bare
  allowedTools := allowlist inv

end Options

/-- What an accepted run is. -/
theorem plan_eq_ok {neutral : Except EngineError String} {inv : Invocation} {p : Plan}
    (h : plan neutral inv = .ok p) : check neutral inv = .ok p.cwd ∧
      p.strictExit = decide (inv.mode = .generate) ∧
      Options.read p.args {} = some (Options.of inv) := by
  unfold plan at h
  cases hcheck : check neutral inv with
  | error e =>
    rw [hcheck] at h
    cases h
  | ok cwd =>
    rw [hcheck] at h
    cases h
    refine ⟨rfl, rfl, ?_⟩
    -- the arguments every run has
    simp only [List.cons_append, List.nil_append]
    rw [Options.read, if_pos rfl, Options.read_value (by decide) rfl,
      Options.read_value (by decide) rfl]
    -- and those it may have
    let m := (splitEffort inv.model).1
    let e := effortOf inv
    rw [Options.read_flagged "--effort"
        (fun v => ⟨true, some "json", some m, v, none, none, none, none, false, []⟩)
        (by decide) fun _ => rfl,
      Options.read_flagged "--append-system-prompt"
        (fun v => ⟨true, some "json", some m, e, v, none, none, none, false, []⟩)
        (by decide) fun _ => rfl,
      Options.read_flagged "--json-schema"
        (fun v => ⟨true, some "json", some m, e, inv.system, v, none, none, false, []⟩)
        (by decide) fun _ => rfl,
      Options.read_flagged "--permission-mode"
        (fun v => ⟨true, some "json", some m, e, inv.system, inv.schema, v, none, false, []⟩)
        (by decide) fun _ => rfl,
      Options.read_flagged "--max-budget-usd"
        (fun v => ⟨true, some "json", some m, e, inv.system, inv.schema, inv.permissionMode, v,
          false, []⟩)
        (by decide) fun _ => rfl,
      Options.read_bare inv.bare rfl, Options.read_tools (allowlist inv) rfl]
    rfl

/-! ## What the modes promise -/

theorem mem_pushTool {out : List String} {tool t : String} :
    t ∈ pushTool out tool ↔ t ∈ out ∨ t = tool := by
  unfold pushTool
  split_ifs with hmem
  · constructor
    · exact .inl
    · rintro (h | rfl)
      · exact h
      · exact hmem
  · rw [List.mem_append, List.mem_singleton]

theorem nodup_pushTool {out : List String} (h : out.Nodup) (tool : String) :
    (pushTool out tool).Nodup := by
  unfold pushTool
  split_ifs with hmem
  · exact h
  · exact List.nodup_append.2 ⟨h, List.nodup_singleton _, fun t ht t' ht' heq =>
      hmem ((heq.trans (List.mem_singleton.1 ht')) ▸ ht)⟩

theorem prefix_pushTool (out : List String) (tool : String) : out <+: pushTool out tool := by
  unfold pushTool
  split_ifs
  · exact List.prefix_rfl
  · exact List.prefix_append _ _

/-- Tools are added at the end, each once. -/
theorem foldl_pushTool (tools out : List String) (h : out.Nodup) :
    out <+: tools.foldl pushTool out ∧ (tools.foldl pushTool out).Nodup ∧
      ∀ t, t ∈ tools.foldl pushTool out ↔ t ∈ out ∨ t ∈ tools := by
  induction tools generalizing out with
  | nil =>
    refine ⟨List.prefix_rfl, h, fun t => ?_⟩
    rw [List.foldl_nil, or_iff_left List.not_mem_nil]
  | cons tool tools ih =>
    obtain ⟨hpre, hnodup, hmem⟩ := ih (pushTool out tool) (nodup_pushTool h tool)
    refine ⟨(prefix_pushTool out tool).trans hpre, hnodup, fun t => ?_⟩
    rw [List.foldl_cons, hmem t, mem_pushTool, List.mem_cons, or_assoc]

/-- What the mode of a run promises of its directory, its tools and its permissions. -/
def Postured (neutral : Except EngineError String) (inv : Invocation) (p : Plan) (o : Options) :
    Prop :=
  match inv.mode with
  | .generate => neutral = .ok p.cwd ∧ o.allowedTools = [] ∧ o.permissionMode = none
  | .readonlyScan => inv.cwd = some p.cwd ∧ READONLY_BASE_TOOLS <+: o.allowedTools ∧
      (∀ t ∈ o.allowedTools, isReadonlyTool t = true) ∧
      ∀ m, o.permissionMode = some m → m = "plan" ∨ m = "default"
  | .edit => inv.cwd = some p.cwd ∧ (∀ t, t ∈ o.allowedTools ↔ t ∈ inv.allowedTools) ∧
      ∃ m, o.permissionMode = some m ∧ m ≠ ""

/-- What is checked of every run. -/
theorem of_check {neutral : Except EngineError String} {inv : Invocation} {cwd : String}
    (h : check neutral inv = .ok cwd) : (∀ e, inv.effort = some e → (Effort.parse e).isSome) ∧
      checkMode neutral inv = .ok cwd := by
  unfold check at h
  split at h
  · cases h
  next hnone =>
    split_ifs at h with hbudget
    refine ⟨fun e he => ?_, h⟩
    rw [he, Option.filter_eq_none_iff] at hnone
    have hparse := hnone e rfl
    rwa [Option.isNone_iff_eq_none, ← ne_eq, Option.ne_none_iff_isSome] at hparse

theorem checkMode_generate {neutral : Except EngineError String} {inv : Invocation} {cwd : String}
    (h : checkMode neutral inv = .ok cwd) (hmode : inv.mode = .generate) :
    neutral = .ok cwd ∧ inv.permissionMode = none := by
  unfold checkMode at h
  rw [hmode] at h
  dsimp only at h
  split_ifs at h
  cases hperm : inv.permissionMode with
  | some mode =>
    rw [hperm] at h
    cases h
  | none =>
    cases hcwd : inv.cwd with
    | some dir =>
      rw [hperm, hcwd] at h
      cases h
    | none =>
      rw [hperm, hcwd] at h
      exact ⟨h, rfl⟩

theorem checkMode_readonlyScan {neutral : Except EngineError String} {inv : Invocation}
    {cwd : String} (h : checkMode neutral inv = .ok cwd) (hmode : inv.mode = .readonlyScan) :
    inv.cwd = some cwd ∧ (∀ t ∈ inv.allowedTools, isReadonlyTool t = true) ∧
      ∀ m, inv.permissionMode = some m → m = "plan" ∨ m = "default" := by
  unfold checkMode at h
  rw [hmode] at h
  dsimp only at h
  split at h
  · cases h
  next htools =>
    split at h
    · cases h
    next hperm =>
      split at h
      next dir hcwd =>
        cases h
        refine ⟨hcwd, fun t ht => ?_, fun m hm => ?_⟩
        · have hbad := List.find?_eq_none.1 htools t ht
          simpa using hbad
        · rw [hm, Option.filter_eq_none_iff] at hperm
          have hbad := hperm m rfl
          simpa [or_iff_not_imp_left] using hbad
      · cases h

theorem checkMode_edit {neutral : Except EngineError String} {inv : Invocation} {cwd : String}
    (h : checkMode neutral inv = .ok cwd) (hmode : inv.mode = .edit) :
    inv.cwd = some cwd ∧ ∃ m, inv.permissionMode = some m ∧ m ≠ "" := by
  unfold checkMode at h
  rw [hmode] at h
  dsimp only at h
  split at h
  · cases h
  · cases h
  next dir mode hcwd hperm =>
    split_ifs at h with hempty
    cases h
    exact ⟨hcwd, mode, hperm, hempty⟩

/-- Every base tool is read-only. -/
theorem isReadonlyTool_base {t : String} (h : t ∈ READONLY_BASE_TOOLS) : isReadonlyTool t = true := by
  unfold READONLY_BASE_TOOLS at h
  simp only [List.mem_cons, List.not_mem_nil, or_false] at h
  rcases h with rfl | rfl | rfl | rfl <;> decide

/-- A run that was accepted keeps what its mode promises. -/
theorem postured_of_plan {neutral : Except EngineError String} {inv : Invocation} {p : Plan}
    (h : plan neutral inv = .ok p) : Postured neutral inv p (Options.of inv) := by
  have hchecked := (of_check (plan_eq_ok h).1).2
  unfold Postured Options.of
  cases hmode : inv.mode with
  | generate =>
    obtain ⟨hneutral, hperm⟩ := checkMode_generate hchecked hmode
    have htools : allowlist inv = [] := by
      unfold allowlist
      rw [hmode]
    exact ⟨hneutral, htools, hperm⟩
  | readonlyScan =>
    obtain ⟨hcwd, htools, hperm⟩ := checkMode_readonlyScan hchecked hmode
    have hlist : allowlist inv = inv.allowedTools.foldl pushTool READONLY_BASE_TOOLS := by
      unfold allowlist
      rw [hmode]
    obtain ⟨hpre, -, hmem⟩ := foldl_pushTool inv.allowedTools READONLY_BASE_TOOLS (by decide)
    dsimp only
    rw [hlist]
    refine ⟨hcwd, hpre, fun t ht => ?_, hperm⟩
    rcases (hmem t).1 ht with ht | ht
    · exact isReadonlyTool_base ht
    · exact htools t ht
  | edit =>
    obtain ⟨hcwd, hperm⟩ := checkMode_edit hchecked hmode
    have hlist : allowlist inv = inv.allowedTools.foldl pushTool [] := by
      unfold allowlist
      rw [hmode]
    dsimp only
    rw [hlist]
    refine ⟨hcwd, fun t => ?_, hperm⟩
    rw [(foldl_pushTool inv.allowedTools [] List.nodup_nil).2.2 t, or_iff_right List.not_mem_nil]

theorem nodup_allowlist (inv : Invocation) : (allowlist inv).Nodup := by
  unfold allowlist
  split
  · exact List.nodup_nil
  · exact (foldl_pushTool _ _ (by decide)).2.1
  · exact (foldl_pushTool _ _ List.nodup_nil).2.1

/-- The effort of an accepted run is a known level. -/
theorem effortOf_known {inv : Invocation} (h : ∀ e, inv.effort = some e → (Effort.parse e).isSome)
    {e : String} (he : effortOf inv = some e) : (Effort.parse e).isSome := by
  unfold effortOf at he
  cases heff : inv.effort with
  | some own =>
    rw [heff, Option.some_or] at he
    rw [← Option.some.inj he]
    exact h own heff
  | none =>
    rw [heff, Option.none_or, Option.map_eq_some_iff] at he
    obtain ⟨level, -, rfl⟩ := he
    rw [Effort.parse_asStr]
    rfl

/-- **What a mode promises, the arguments say**: read back, the arguments of an accepted run are its
own options, its effort is a known level, and its directory, tools and permissions are those of its
mode. -/
theorem plan_posture {neutral : Except EngineError String} {inv : Invocation} {p : Plan}
    (h : plan neutral inv = .ok p) : ∃ o, Options.read p.args {} = some o ∧ o = Options.of inv ∧
      (∀ e, o.effort = some e → (Effort.parse e).isSome) ∧ o.allowedTools.Nodup ∧
      Postured neutral inv p o := by
  obtain ⟨hcheck, -, hread⟩ := plan_eq_ok h
  exact ⟨_, hread, rfl, fun e he => effortOf_known (of_check hcheck).1 he, nodup_allowlist inv,
    postured_of_plan h⟩

/-- A scan of a repository with one tool more. -/
def sampleScan : Invocation where
  prompt := "why"
  model := "opus@xhigh"
  mode := .readonlyScan
  cwd := some "/repo"
  allowedTools := ["Read", "Bash(git log:*)"]
  permissionMode := some "plan"

theorem plan_posture_scan : ∃ p, plan (.ok "/tmp") sampleScan = .ok p ∧
    ∃ o, Options.read p.args {} = some o ∧ o = Options.of sampleScan ∧
      (∀ e, o.effort = some e → (Effort.parse e).isSome) ∧ o.allowedTools.Nodup ∧
      Postured (.ok "/tmp") sampleScan p o := by
  have h : ∃ p, plan (.ok "/tmp") sampleScan = .ok p := by
    have hcheck : check (.ok "/tmp") sampleScan = .ok "/repo" := by
      have htools : (sampleScan.allowedTools.find? fun tool => !isReadonlyTool tool) = none := by
        decide +kernel
      unfold check checkMode
      rw [htools]
      rfl
    unfold plan
    rw [hcheck]
    exact ⟨_, rfl⟩
  obtain ⟨p, hp⟩ := h
  exact ⟨p, hp, plan_posture hp⟩

end LightTrack.Engine
