import LightTrack.Lib.Extremum
import LightTrack.Store.Breakdown
import LightTrack.Store.Sqlite
import Mathlib.Data.Prod.Lex

/-! # Two surfaces on a cap

`evaluate_project_limits`, which `/v1/limits/status` reports, reads each rule's own window
and scope.  `GET /v1/limits/usage` reads one window, grouped by one dimension, and puts
beside every value the rules that bind it.

* `evaluateProjectLimits`, `usageByScope` : the two handlers over a store,
* `evaluateProjectLimits_eq` : the first is one read for each active rule,
* `usageByScope_eq_ok_iff` : when the second answers, and with what.
-/

namespace LightTrack

/-! ## Words of the wire -/

namespace LimitWindow

/-- `LimitWindow::ALL` -/
def ALL : List LimitWindow := [hour, day, month]

/-- `as_str` -/
def asStr : LimitWindow → String
  | hour => "hour"
  | day => "day"
  | month => "month"

/-- `from_wire` -/
def fromWire (s : String) : Option LimitWindow := ALL.find? fun w => w.asStr == s

end LimitWindow

namespace LimitScope

/-- `from_parts` -/
def fromParts (kind value : String) : Option LimitScope :=
  if kind = "provider" then some (provider value)
  else if kind = "model" then some (model value)
  else if kind = "name" then some (name value)
  else if kind = "api_key" then some (apiKey value)
  else if kind = "customer" then some (customer value)
  else none

/-- `KINDS` -/
def KINDS : List String := ["provider", "model", "name", "api_key", "customer"]

end LimitScope

/-- What of a key a label shows. -/
structure ApiKey where
  id : String
  name : String
  keyPrefix : String
  deriving DecidableEq

/-- What the two surfaces read. -/
structure LimitsState where
  rows : List EventRow
  revenue : List RevenueEvent
  rules : RuleSet
  keys : List ApiKey

namespace LimitsState

variable (st : LimitsState) (project : String) (now : Time)

/-- `list_limit_rules`, enabled ones only. -/
def listLimitRules : List LimitRule :=
  st.rules.rules.filter fun r => r.projectId == project && r.enabled

/-- The threshold of a rule, and how it was arrived at. -/
def resolve : LimitRule → Resolved :=
  resolver (resolveAll (st.listLimitRules project) now (revenueList st.revenue project))

/-- The usage of a rule's own window and scope. -/
def usageOfKey (k : UsageKey) : Except StoreError Usage :=
  match k.2 with
  | none => usageSince st.rows project (k.1.since now)
  | some s => usageSinceScoped st.rows project (k.1.since now) s

/-- One rule against a usage. -/
def ruleStatus (usage : Usage) (r : LimitRule) : LimitStatus :=
  evaluateRuleResolvedAt r usage (st.resolve project now r).1 (st.resolve project now r).2 now

/-- The loop of `evaluate_project_limits`: each window and scope is read once. -/
def evaluateRules : List LimitRule → List (UsageKey × Usage) → Except StoreError (List LimitStatus)
  | [], _ => .ok []
  | r :: rules, usage =>
    if !r.isActiveAt now then evaluateRules rules usage
    else
      match usage.lookup r.usageKey with
      | some u => (evaluateRules rules usage).map (st.ruleStatus project now u r :: ·)
      | none =>
        match st.usageOfKey project now r.usageKey with
        | .error e => .error e
        | .ok u =>
          (evaluateRules rules ((r.usageKey, u) :: usage)).map (st.ruleStatus project now u r :: ·)

/-- `evaluate_project_limits` -/
def evaluateProjectLimits : Except StoreError (List LimitStatus) :=
  st.evaluateRules project now (st.listLimitRules project) []

/-- Reading a window and scope once is reading it for each rule. -/
theorem evaluateRules_eq (rules : List LimitRule) {usage : List (UsageKey × Usage)}
    (h : ∀ k u, usage.lookup k = some u → st.usageOfKey project now k = .ok u) :
    st.evaluateRules project now rules usage =
      (rules.filter fun r => r.isActiveAt now).mapM fun r =>
        (st.usageOfKey project now r.usageKey).map fun u => st.ruleStatus project now u r := by
  induction rules generalizing usage with
  | nil => rfl
  | cons r rules ih =>
    unfold evaluateRules
    cases hactive : r.isActiveAt now with
    | false =>
      rw [List.filter_cons_of_neg (by simp [hactive])]
      exact ih h
    | true =>
      rw [List.filter_cons_of_pos (by simp [hactive]), List.mapM_cons]
      simp only [Bool.not_true, Bool.false_eq_true, if_false]
      cases hlookup : usage.lookup r.usageKey with
      | some u =>
        rw [h _ _ hlookup, ih h]
        cases ((rules.filter fun r => r.isActiveAt now).mapM fun r =>
          (st.usageOfKey project now r.usageKey).map fun u => st.ruleStatus project now u r) <;> rfl
      | none =>
        cases hread : st.usageOfKey project now r.usageKey with
        | error e => rfl
        | ok u =>
          have hnext : ∀ k v, ((r.usageKey, u) :: usage).lookup k = some v →
              st.usageOfKey project now k = .ok v := by
            intro k v hk
            rw [lookup_cons_ite] at hk
            split_ifs at hk with hkey
            · rw [hkey, hread, Option.some.inj hk]
            · exact h k v hk
          simp only
          rw [ih hnext]
          cases ((rules.filter fun r => r.isActiveAt now).mapM fun r =>
            (st.usageOfKey project now r.usageKey).map fun u =>
              st.ruleStatus project now u r) <;> rfl

/-- The rules in force. -/
def activeRules : List LimitRule :=
  (st.listLimitRules project).filter fun r => r.isActiveAt now

/-- **What the status surface reports**: one status for each active rule, over the rule's own window
and scope, if all of these can be read. -/
theorem evaluateProjectLimits_eq (st : LimitsState) (project : String) (now : Time) :
    st.evaluateProjectLimits project now = (st.activeRules project now).mapM fun r =>
      (st.usageOfKey project now r.usageKey).map fun u => st.ruleStatus project now u r := by
  refine st.evaluateRules_eq project now _ ?_
  intro k u hk
  rw [List.lookup_nil] at hk
  cases hk

end LimitsState

/-! ## The breakdown -/

namespace LimitsUsage

def DEFAULT_LIMIT : ℕ := 20

def MAX_LIMIT : ℕ := 200

/-- `UsageParams`, of a project that is already resolved. -/
structure UsageParams where
  dimension : Option String := none
  window : Option String := none
  limit : Option ℕ := none

/-- `ScopeEntry` -/
structure ScopeEntry where
  value : Option String
  label : Option String
  usage : Usage
  costSharePct : ℚ
  rules : List LimitStatus

/-- `UsageByScopeResp` -/
structure UsageByScopeResp where
  projectId : String
  dimension : String
  window : LimitWindow
  since : Time
  total : Usage
  entries : List ScopeEntry
  truncated : Bool

/-- Why no breakdown is answered. -/
inductive Refusal where
  | badRequest (message : String)
  | store (e : StoreError)

/-- `parse_window` -/
def parseWindow (s : Option String) : Except Refusal LimitWindow :=
  let raw := s.getD LimitWindow.day.asStr
  match LimitWindow.fromWire raw with
  | some w => .ok w
  | none =>
    .error (.badRequest ("unknown window '" ++ raw ++ "' (expected " ++
      "|".intercalate (LimitWindow.ALL.map LimitWindow.asStr) ++ ")"))

/-- `scope_binds_row`: a model cap binds by family, any other by its value. -/
def scopeBindsRow (scope : LimitScope) (dimension : String) (value : Option String) : Bool :=
  if scope.kindStr != dimension then false
  else
    match scope, value with
    | .model _, some model => scope.matchesModelRow "" model
    | _, _ => some scope.value == value

/-- The order of the rows: most expensive first, then most calls, then by value. -/
def rowRank (r : ScopeUsage) : ℚ ×ₗ ℤ ×ₗ WithBot String :=
  toLex (-r.usage.costForLimits, toLex (-r.usage.calls, r.value))

/-- `name (prefix)` of the key that a value names. -/
def labelOf (keys : List ApiKey) (value : Option String) : Option String :=
  value.bind fun v =>
    (keys.find? fun k => k.id == v).map fun k => k.name ++ " (" ++ k.keyPrefix ++ ")"

section Compose

variable (st : LimitsState) (project dimension : String) (now : Time)

/-- The statuses beside a row: the active rules that bind its value, against its usage. -/
def boundRules (r : ScopeUsage) : List LimitStatus :=
  (((st.listLimitRules project).filter fun rule => rule.isActiveAt now).filter fun rule =>
    rule.scope.any fun s => scopeBindsRow s dimension r.value).map
      (st.ruleStatus project now r.usage)

/-- One entry of the answer. -/
def entryOf (keys : List ApiKey) (total : Usage) (r : ScopeUsage) : ScopeEntry where
  value := r.value
  label := labelOf keys r.value
  usage := r.usage
  costSharePct :=
    if 0 < total.costForLimits then r.usage.costForLimits / total.costForLimits * 100 else 0
  rules := boundRules st project dimension now r

/-- `compose` -/
def compose (window : LimitWindow) (total : Usage) (rows : List ScopeUsage) (keys : List ApiKey)
    (limit : ℕ) : UsageByScopeResp where
  projectId := project
  dimension := dimension
  window := window
  since := window.since now
  total := total
  entries := ((rows.mergeSort fun a b => decide (rowRank a ≤ rowRank b)).take limit).map
    (entryOf st project dimension now keys total)
  truncated := decide (limit < rows.length)

/-- `usage_by_scope`: the kind names the column of the grouped query. -/
def usageByScope (mayLabel : Bool) (q : UsageParams) : Except Refusal UsageByScopeResp :=
  let dimension := q.dimension.getD "api_key"
  match LimitScope.fromParts dimension "" with
  | none =>
    .error (.badRequest ("unknown dimension '" ++ dimension ++ "' (expected one of " ++
      "|".intercalate LimitScope.KINDS ++ ")"))
  | some column =>
    match parseWindow q.window with
    | .error e => .error e
    | .ok window =>
      let limit := max 1 (min (q.limit.getD DEFAULT_LIMIT) MAX_LIMIT)
      match LightTrack.usageByScope st.rows project (window.since now) column,
        usageSince st.rows project (window.since now) with
      | .error e, _ => .error (.store e)
      | .ok _, .error e => .error (.store e)
      | .ok rows, .ok total =>
        let keys := if mayLabel && dimension == "api_key" then st.keys else []
        .ok (compose st project dimension now window total rows keys limit)

/-- The request as it is understood: a column, a window and a number of rows. -/
def UsageParams.understood (q : UsageParams) (column : LimitScope) (window : LimitWindow) : Prop :=
  LimitScope.fromParts (q.dimension.getD "api_key") "" = some column ∧
    parseWindow q.window = .ok window

/-- The number of rows a request is answered with at most. -/
def UsageParams.rowLimit (q : UsageParams) : ℕ := max 1 (min (q.limit.getD DEFAULT_LIMIT) MAX_LIMIT)

/-- **When the breakdown is answered**: the request is understood, and both the grouped query and
the total can be read. -/
theorem usageByScope_eq_ok_iff (mayLabel : Bool) (q : UsageParams) (resp : UsageByScopeResp) :
    usageByScope st project now mayLabel q = .ok resp ↔
      ∃ column window rows total, q.understood column window ∧
        LightTrack.usageByScope st.rows project (window.since now) column = .ok rows ∧
        usageSince st.rows project (window.since now) = .ok total ∧
        resp = compose st project (q.dimension.getD "api_key") now window total rows
          (if mayLabel && q.dimension.getD "api_key" == "api_key" then st.keys else [])
          q.rowLimit := by
  unfold usageByScope UsageParams.understood
  simp only
  constructor
  · intro h
    cases hcolumn : LimitScope.fromParts (q.dimension.getD "api_key") "" with
    | none =>
      rw [hcolumn] at h
      cases h
    | some column =>
      cases hwindow : parseWindow q.window with
      | error e =>
        rw [hcolumn, hwindow] at h
        cases h
      | ok window =>
        cases hrows : LightTrack.usageByScope st.rows project (window.since now) column with
        | error e =>
          simp only [hcolumn, hwindow, hrows] at h
          cases h
        | ok rows =>
          cases htotal : usageSince st.rows project (window.since now) with
          | error e =>
            simp only [hcolumn, hwindow, hrows, htotal] at h
            cases h
          | ok total =>
            simp only [hcolumn, hwindow, hrows, htotal] at h
            exact ⟨column, window, rows, total, ⟨rfl, rfl⟩, hrows, htotal, (Except.ok.inj h).symm⟩
  · rintro ⟨column, window, rows, total, ⟨hcolumn, hwindow⟩, hrows, htotal, rfl⟩
    simp only [hcolumn, hwindow, hrows, htotal]
    rfl

end Compose

end LimitsUsage

end LightTrack
