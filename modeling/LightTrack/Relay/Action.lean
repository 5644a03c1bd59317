import LightTrack.Core.Event
import LightTrack.Engine.Invocation
import LightTrack.Lib.Delimited
import LightTrack.Lib.Template
import LightTrack.Relay.Task

/-! # Actions

The device's library of actions.  A task names an action and carries parameters; which directory
that is, in which workspace it runs, and what prompt comes of the action's template, is decided
here.

* `joinPath_confined` : a name from the network stays below the library,
* `render_once` : a prompt is its template with every placeholder replaced once.
-/

namespace LightTrack.Agent

open Engine (Mode EngineError)

/-! ## Names -/

/-- A character an action type may have. -/
def isNameChar (c : Char) : Bool := c.isAlphanum || c == '-' || c == '_' || c == '/'

/-- `validate_action_type`. -/
def validateActionType (actionType : String) : Except String Unit :=
  if !actionType.toList.isEmpty && actionType.toList.head? != some '/' &&
    actionType.toList.getLast? != some '/' && !decide (['.', '.'] <:+: actionType.toList) &&
    actionType.toList.all isNameChar
  then .ok ()
  else .error s!"invalid action_type '{actionType}'"

/-- `Path::join`: an absolute path replaces the one it is joined to. -/
def joinPath (base path : String) : String :=
  if path.toList.head? = some '/' then path
  else if base.toList.getLast?.all (· == '/') then base ++ path
  else base ++ "/" ++ path

/-- `Path::components`, but for the root: what stands between the slashes of a path, where that is
neither empty nor `.`. -/
def components (path : String) : List String :=
  ((path.toList.splitOn '/').map String.ofList).filter fun c => c != "" && c != "."

/-- Where components lead from a directory, once every `..` has been followed. -/
def follow : List String → List String → List String
  | dir, [] => dir
  | dir, c :: path => follow (if c = ".." then dir.dropLast else dir ++ [c]) path

theorem follow_append (dir path path' : List String) :
    follow dir (path ++ path') = follow (follow dir path) path' := by
  induction path generalizing dir with
  | nil => rfl
  | cons c path ih =>
    rw [List.cons_append, follow, follow, ih]

theorem follow_of_no_parent {path : List String} (h : ".." ∉ path) (dir : List String) :
    follow dir path = dir ++ path := by
  induction path generalizing dir with
  | nil => rw [follow, List.append_nil]
  | cons c path ih =>
    rw [List.mem_cons, not_or] at h
    rw [follow, if_neg (Ne.symm h.1), ih h.2, List.append_assoc, List.singleton_append]

theorem components_append (a b : String) :
    components (a ++ "/" ++ b) = components a ++ components b := by
  have hlist : (a ++ "/" ++ b).toList = a.toList ++ '/' :: b.toList := by
    rw [String.toList_append, String.toList_append, List.append_assoc]
    rfl
  unfold components
  rw [hlist, Delimited.splitOn_append_cons, List.map_append, List.filter_append]

/-- What a name that was accepted is made of. -/
theorem of_validateActionType {actionType : String} (h : validateActionType actionType = .ok ()) :
    actionType.toList ≠ [] ∧ actionType.toList.head? ≠ some '/' ∧
      ∀ c ∈ actionType.toList, isNameChar c = true := by
  unfold validateActionType at h
  split_ifs at h with hok
  simp only [Bool.and_eq_true, Bool.not_eq_true', List.isEmpty_eq_false_iff, bne_iff_ne,
    List.all_eq_true] at hok
  exact ⟨hok.1.1.1.1, hok.1.1.1.2, hok.2⟩

/-- Every component that is not empty and holds no dot is one. -/
theorem mem_components {path : String} {w : List Char} (h : w ∈ path.toList.splitOn '/')
    (hne : w ≠ []) (hdot : '.' ∉ w) : String.ofList w ∈ components path := by
  refine List.mem_filter.2 ⟨List.mem_map_of_mem h, ?_⟩
  rw [Bool.and_eq_true, bne_iff_ne, bne_iff_ne]
  constructor
  · intro hempty
    exact hne (String.ofList_eq_empty_iff.1 hempty)
  · intro hcur
    refine hdot ?_
    rw [← String.toList_ofList (l := w), hcur]
    decide

/-- No component of an accepted name leads up. -/
theorem no_parent_of_validateActionType {actionType : String}
    (h : validateActionType actionType = .ok ()) : ".." ∉ components actionType := by
  intro hmem
  rcases List.mem_map.1 (List.mem_filter.1 hmem).1 with ⟨w, hw, hparent⟩
  have hdot : '.' ∈ w := by
    rw [← String.toList_ofList (l := w), hparent]
    decide
  have hname := (of_validateActionType h).2.2 '.' (Delimited.mem_of_mem_splitOn hw hdot)
  revert hname
  decide

/-- An accepted name has components. -/
theorem components_ne_nil {actionType : String} (h : validateActionType actionType = .ok ()) :
    components actionType ≠ [] := by
  obtain ⟨hne, hhead, hname⟩ := of_validateActionType h
  rcases List.exists_cons_of_ne_nil hne with ⟨c, cs, hcs⟩
  have hmem : c ∈ actionType.toList := by
    rw [hcs]
    exact List.mem_cons_self
  have hslash : c ≠ '/' := by
    rw [hcs, List.head?_cons] at hhead
    exact fun hc => hhead (congrArg some hc)
  obtain ⟨w, hw, hcw⟩ := Delimited.exists_mem_splitOn hmem hslash
  have hdot : '.' ∉ w := by
    intro hdot
    have hbad := hname '.' (Delimited.mem_of_mem_splitOn hw hdot)
    revert hbad
    decide
  exact List.ne_nil_of_mem (mem_components hw (List.ne_nil_of_mem hcw) hdot)

/-- A name that does not begin at the root adds its components to those of the directory. -/
theorem components_joinPath {path : String} (h : path.toList.head? ≠ some '/') (base : String) :
    components (joinPath base path) = components base ++ components path := by
  unfold joinPath
  rw [if_neg h]
  split_ifs with hsep
  · rcases List.eq_nil_or_concat base.toList with hbase | ⟨cs, c, hbase⟩
    · have hempty : base = "" := String.toList_inj.1 hbase
      rw [hempty, String.empty_append]
      rfl
    · -- the slash at the end of the directory separates already
      rw [hbase, List.concat_eq_append, List.getLast?_concat, Option.all_some, beq_iff_eq] at hsep
      have hdir : base = String.ofList cs ++ "/" := by
        refine String.toList_inj.1 ?_
        rw [hbase, hsep, String.toList_append, String.toList_ofList, List.concat_eq_append]
        rfl
      have hself : components base = components (String.ofList cs) := by
        have hcut := components_append (String.ofList cs) ""
        rw [String.append_empty] at hcut
        rw [hdir, hcut]
        exact List.append_nil _
      rw [hself, hdir]
      exact components_append _ _
  · exact components_append base path

/-- **A name that was accepted stays below the library**: it leads strictly below the library's own
directory, whatever that is. -/
theorem joinPath_confined {actionType : String}
    (h : validateActionType actionType = .ok ()) (library : String) (dir : List String) :
    ∃ name, name ≠ [] ∧ ".." ∉ name ∧
      follow dir (components (joinPath library actionType)) =
        follow dir (components library) ++ name := by
  refine ⟨components actionType, components_ne_nil h, no_parent_of_validateActionType h, ?_⟩
  rw [components_joinPath (of_validateActionType h).2.1, follow_append,
    follow_of_no_parent (no_parent_of_validateActionType h)]

theorem joinPath_confined_nested :
    validateActionType "news/brief" = .ok () ∧
      ∃ name, name ≠ [] ∧ ".." ∉ name ∧
        follow [] (components (joinPath "lib/" "news/brief")) =
          follow [] (components "lib/") ++ name :=
  ⟨rfl, joinPath_confined rfl "lib/" []⟩

/-! ## Loading -/

/-- `ConnectorSpec` -/
inductive ConnectorSpec where
  | http (url : String) (headers : List (String × String))
  | command (command : List String)

/-- `ActionSpec` -/
structure ActionSpec where
  model : String := "sonnet"
  system : Option String := none
  schemaFile : Option String := none
  mode : Mode := .generate
  workspace : Option String := none
  allowedTools : List String := []
  permissionMode : Option String := none
  maxBudgetUsd : Option ℚ := none
  timeoutSecs : Option ℕ := none
  version : Option String := none
  reportIo : Bool := false
  connector : Option ConnectorSpec := none

/-- `Action` -/
structure Action where
  spec : ActionSpec
  promptTemplate : String
  schema : Option String

/-- The files of a device, and what is read from them. -/
structure Files where
  isDir : String → Bool
  pathExists : String → Bool
  readToString : String → Except String String
  fromToml : String → Except String ActionSpec

/-- `with_context`, as `{e:#}` shows it. -/
def withContext {α : Type} (context : String) (r : Except String α) : Except String α :=
  r.mapError fun e => context ++ ": " ++ e

/-- `load` -/
def load (files : Files) (actionsDir actionType : String) : Except String Action := do
  validateActionType actionType
  let dir := joinPath actionsDir actionType
  if !files.isDir dir then
    throw s!"no action '{actionType}' in library '{actionsDir}' (expected {dir})"
  let specPath := joinPath dir "action.toml"
  let spec ← if files.pathExists specPath then do
      let text ← files.readToString specPath
      withContext s!"parsing {specPath}" (files.fromToml text)
    else pure {}
  let promptTemplate ← withContext s!"action '{actionType}' has no prompt.md"
    (files.readToString (joinPath dir "prompt.md"))
  let schema ← match spec.schemaFile with
    | some f => (withContext s!"action '{actionType}': schema file '{f}'"
        (files.readToString (joinPath dir f))).map some
    | none => pure none
  return { spec, promptTemplate, schema }

/-- `resolve_workspace`: the name is the device's own, and is held to what a name from the network
is. -/
def resolveWorkspace (files : Files) (workspacesRoot workspace : Option String) (mode : Mode) :
    Except String (Option String) :=
  if mode = .generate then
    if workspace.isSome then
      .error ("action mode 'generate' takes no workspace — set mode = \"readonly-scan\" or " ++
        "\"edit\"")
    else .ok none
  else match workspace with
    | none => .error (s!"action mode '{mode.asStr}' requires a workspace (relative to " ++
        "workspaces_root)")
    | some name => do
      withContext s!"invalid workspace '{name}'" (validateActionType name)
      match workspacesRoot with
      | none => .error (s!"action mode '{mode.asStr}' needs a workspace, but the agent config " ++
          "sets no workspaces_root")
      | some root =>
        let path := joinPath root name
        if files.isDir path then .ok (some path)
        else .error s!"workspace '{name}' does not exist under {root}"

/-- A directory below the operator's root for workspaces. -/
def Below (root path : String) : Prop :=
  ∃ name, validateActionType name = .ok () ∧ path = joinPath root name

/-- A run that is more than a completion works below the operator's root, or not at all. -/
theorem resolveWorkspace_eq_ok {files : Files} {workspacesRoot workspace : Option String}
    {mode : Mode} {dir : Option String}
    (h : resolveWorkspace files workspacesRoot workspace mode = .ok dir) :
    (mode = .generate ∧ dir = none) ∨ ∃ root path,
      workspacesRoot = some root ∧ dir = some path ∧ files.isDir path = true ∧ Below root path := by
  unfold resolveWorkspace at h
  split_ifs at h with hmode hnamed
  · cases h
    exact .inl ⟨hmode, rfl⟩
  · cases workspace with
    | none => cases h
    | some name =>
      dsimp only at h
      cases hvalid : validateActionType name with
      | error e =>
        rw [hvalid] at h
        cases h
      | ok u =>
        rw [hvalid] at h
        cases workspacesRoot with
        | none => cases h
        | some root =>
          replace h : (if files.isDir (joinPath root name) then Except.ok (some (joinPath root name))
            else .error s!"workspace '{name}' does not exist under {root}") = .ok dir := h
          split_ifs at h with hdir
          cases h
          exact .inr ⟨root, _, rfl, rfl, hdir, name, hvalid, rfl⟩

/-! ## Prompts -/

/-- What opens a placeholder. -/
def OPENING : List Char := ['\x7b', '\x7b']

theorem opening_ne_nil : OPENING ≠ [] := List.cons_ne_nil _ _

/-- What closes one. -/
def CLOSING : List Char := ['\x7d', '\x7d']

/-- `resolve`: what a placeholder stands for. -/
def resolve (token : String) (task : RelayTask) : Option String :=
  if token = "task_id" then some task.id
  else if token = "action_type" then some task.actionType
  else if token = "payload" then some task.payload.render
  else do
    let path ← stripPrefix "params." token
    let cur ← (path.toList.splitOn '.').foldlM (fun cur seg => cur.get (String.ofList seg))
      task.payload
    match cur with
    | .str s => some s
    | other => some other.render

/-- The error for a placeholder that stands for nothing. -/
def unresolved (token : String) : String :=
  "prompt placeholder '" ++ String.ofList OPENING ++ token ++ String.ofList CLOSING ++
    "' resolved to nothing (the payload has no such field, or the template names one it does not " ++
    "define)"

/-- What one placeholder of a template becomes. -/
def fillPlaceholder (task : RelayTask) (placeholder : List Char) : Except String (List Char) :=
  let token := strTrim (String.ofList placeholder)
  match resolve token task with
  | some v => .ok v.toList
  | none => .error (unresolved token)

/-- `render`. -/
def render (template : String) (task : RelayTask) : Except String String :=
  (Template.fill OPENING CLOSING (fillPlaceholder task) template.toList).map
    String.ofList

/-- The token in a placeholder. -/
def tokenOf (placeholder : List Char) : String := strTrim (String.ofList placeholder)

/-- What stands in a prompt for a placeholder. -/
def valueOf (task : RelayTask) (placeholder : List Char) : List Char :=
  ((resolve (tokenOf placeholder) task).getD "").toList

theorem value_fillPlaceholder (task : RelayTask) :
    Template.value (fillPlaceholder task) = valueOf task := by
  funext placeholder
  unfold Template.value fillPlaceholder valueOf tokenOf
  cases hres : resolve (strTrim (String.ofList placeholder)) task with
  | none => simp only [hres, Option.getD_none, String.toList_empty]
  | some v => simp only [hres, Option.getD_some]

theorem failure_fillPlaceholder (task : RelayTask) (placeholder : List Char) :
    Template.failure (fillPlaceholder task) placeholder =
      if (resolve (tokenOf placeholder) task).isNone then some (unresolved (tokenOf placeholder))
      else none := by
  unfold Template.failure fillPlaceholder tokenOf
  cases hres : resolve (strTrim (String.ofList placeholder)) task with
  | none => simp only [hres, Option.isNone_none, if_true]
  | some v => simp only [hres, Option.isNone_some, Bool.false_eq_true, if_false]

/-- The first placeholder that stands for nothing is the one a failure names. -/
theorem findSome?_failure (task : RelayTask) (holes : List (List Char × List Char)) :
    holes.findSome? (fun g => Template.failure (fillPlaceholder task) g.2) =
      (holes.find? fun g => (resolve (tokenOf g.2) task).isNone).map
        fun g => unresolved (tokenOf g.2) := by
  induction holes with
  | nil => rfl
  | cons g holes ih =>
    rw [List.findSome?_cons, failure_fillPlaceholder, List.find?_cons]
    cases hres : (resolve (tokenOf g.2) task).isNone with
    | true => rw [if_pos rfl, Option.map_some]
    | false => rw [if_neg Bool.false_ne_true, ih]

/-- **A prompt is its template, read once**: how the template is read does not depend on the task,
every placeholder becomes exactly what it stands for, and what a payload brings in is not read for
placeholders again.  If one stands for nothing there is no prompt, and the first such is named. -/
theorem render_once (template : String) : ∃ t : Template.Text Char,
    Template.Reads OPENING CLOSING template.toList t ∧
      t.written OPENING CLOSING = template.toList ∧
      ∀ task, render template task =
        match t.holes.find? fun g => (resolve (tokenOf g.2) task).isNone with
        | some g => .error (unresolved (tokenOf g.2))
        | none => .ok (String.ofList (t.filled (valueOf task))) := by
  obtain ⟨t, ht⟩ : ∃ t, Template.Reads OPENING CLOSING template.toList t :=
    Template.exists_reads opening_ne_nil template.toList
  refine ⟨t, ht, ht.written, ?_⟩
  intro task
  unfold render
  rw [Template.fill_eq opening_ne_nil ht, findSome?_failure, value_fillPlaceholder]
  cases t.holes.find? fun g => (resolve (tokenOf g.2) task).isNone <;> rfl

end LightTrack.Agent
