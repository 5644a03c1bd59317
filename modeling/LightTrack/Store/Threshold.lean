import LightTrack.Store.Usage

/-! # Resolving thresholds against revenue

A fixed threshold is its number.  A revenue share needs the revenue recognized
over the rule's window, read at evaluation time: `resolveAll` reads each distinct
window once and resolves every rule that needs it, keyed by rule id.

* `resolver_resolveAll` : with unique rule ids, what a rule resolves to depends on
  the rule alone and not on the rules beside it.
-/

namespace LightTrack

/-! ## Recognized revenue -/

/-- What a revenue record is. -/
inductive RevenueKind where
  | subscription
  | oneTime
  | usage
  | refund
  deriving DecidableEq

/-- One revenue record of a project. -/
structure RevenueEvent where
  id : String
  projectId : String
  customerId : Option String
  amountUsd : ℚ
  kind : RevenueKind
  periodStart : Option Time
  periodEnd : Option Time
  ts : Time
  deriving DecidableEq

/-- The amount of `r` recognized within `[since, until)`; `none` is the NaN a period shorter
than a second divides to. -/
def recognizedAmount (r : RevenueEvent) (since until_ : Time) : Option ℚ :=
  let signed := if r.kind = .refund then -|r.amountUsd| else |r.amountUsd|
  let atTs := some (if since ≤ r.ts ∧ r.ts < until_ then signed else 0)
  match r.periodStart, r.periodEnd with
  | some ps, some pe =>
    if ps < pe then
      let start := max ps since
      let stop := min pe until_
      if stop ≤ start then some 0
      else
        let overlap := Time.numSeconds (stop - start)
        let total := Time.numSeconds (pe - ps)
        if total = 0 then none else some (signed * ((overlap : ℚ) / total))
    else atTs
  | _, _ => atTs

/-- The revenue recognized for one customer (or for all) within `[since, until)`. -/
def recognizedRevenue (revenue : List RevenueEvent) (customer : Option String)
    (since until_ : Time) : Option ℚ :=
  ((revenue.filter fun r => customer.all fun c => r.customerId == some c).mapM
    fun r => recognizedAmount r since until_).map List.sum

/-! ## Resolution -/

/-- Whether this rule's threshold can only be known by reading revenue. -/
def needsRevenue (rule : LimitRule) : Bool :=
  match rule.threshold with
  | .revenueShare _ => true
  | .fixed _ => false

/-- The customer a revenue-share rule reads revenue for. -/
def revenueSubject (rule : LimitRule) : Option String :=
  match rule.scope with
  | some (.customer c) => some c
  | _ => none

/-- The key revenue windows are indexed by. -/
def windowKey (rule : LimitRule) : Int := Time.numSeconds rule.window.lookback

/-- A resolved threshold and the basis that explains it. -/
abbrev Resolved := WithTop ℚ × ThresholdBasis

/-- Read each distinct window of the rules that need revenue, once. -/
def fetchWindows (now : Time) (fetch : Time → Time → List RevenueEvent) :
    List LimitRule → List (Int × List RevenueEvent) → List (Int × List RevenueEvent)
  | [], windows => windows
  | r :: rules, windows =>
    if needsRevenue r && (windows.lookup (windowKey r)).isNone then
      fetchWindows now fetch rules ((windowKey r, fetch (r.window.since now) now) :: windows)
    else fetchWindows now fetch rules windows

/-- What the revenue rows of its window make of one rule's threshold. No rows and no positive
revenue both count as unmeasured. -/
def resolveRows (now : Time) (rows : List RevenueEvent) (r : LimitRule) : Resolved :=
  let revenue := recognizedRevenue rows (revenueSubject r) (r.window.since now) now
  r.threshold.resolve (revenue.filter fun rev => !rows.isEmpty && decide (0 < rev))

/-- Resolve every revenue-share rule against rows already read. -/
def resolveFromWindows (now : Time) (windows : List (Int × List RevenueEvent)) :
    List LimitRule → List (String × Resolved)
  | [] => []
  | r :: rules =>
    let out := resolveFromWindows now windows rules
    if needsRevenue r then
      match windows.lookup (windowKey r) with
      | some rows => (r.id, resolveRows now rows r) :: out
      | none => out
    else out

/-- Resolve every rule that needs revenue. -/
def resolveAll (rules : List LimitRule) (now : Time) (fetch : Time → Time → List RevenueEvent) :
    List (String × Resolved) :=
  resolveFromWindows now (fetchWindows now fetch rules []) rules

/-- The resolver admission takes: the resolved entry, else the rule's own unmeasured resolution. -/
def resolver (resolved : List (String × Resolved)) (rule : LimitRule) : Resolved :=
  (resolved.lookup rule.id).getD (rule.threshold.resolve none)

/-! ## One rule at a time -/

/-- What `rule` resolves to when its window is read for it alone. -/
def resolveRule (now : Time) (fetch : Time → Time → List RevenueEvent) (rule : LimitRule) :
    Resolved :=
  if needsRevenue rule then resolveRows now (fetch (rule.window.since now) now) rule
  else rule.threshold.resolve none

theorem lookup_cons_ite {α β : Type*} [BEq α] [LawfulBEq α] [DecidableEq α] (k k' : α) (v : β)
    (l : List (α × β)) :
    ((k', v) :: l).lookup k = if k = k' then some v else l.lookup k := by
  rw [List.lookup_cons]
  by_cases h : k = k'
  · simp [h]
  · rw [if_neg h, beq_false_of_ne h]

/-- Every window in the table holds the rows of the rules that read it. -/
def WindowsOk (now : Time) (fetch : Time → Time → List RevenueEvent)
    (windows : List (Int × List RevenueEvent)) : Prop :=
  ∀ (w : LimitWindow) (rows : List RevenueEvent),
    windows.lookup (Time.numSeconds w.lookback) = some rows → rows = fetch (w.since now) now

theorem fetchWindows_spec {now : Time} {fetch : Time → Time → List RevenueEvent}
    (rules : List LimitRule) {windows : List (Int × List RevenueEvent)}
    (h : WindowsOk now fetch windows) :
    WindowsOk now fetch (fetchWindows now fetch rules windows) ∧
      (∀ k rows, windows.lookup k = some rows →
        (fetchWindows now fetch rules windows).lookup k = some rows) ∧
      ∀ r ∈ rules, needsRevenue r = true →
        ((fetchWindows now fetch rules windows).lookup (windowKey r)).isSome := by
  induction rules generalizing windows with
  | nil => exact ⟨h, fun _ _ hk => hk, by simp⟩
  | cons r rules ih =>
    unfold fetchWindows
    split_ifs with hfetch
    · -- a window that was not read yet
      obtain ⟨hneed, hnone⟩ := Bool.and_eq_true_iff.1 hfetch
      have hnew : WindowsOk now fetch ((windowKey r, fetch (r.window.since now) now) :: windows) := by
        intro w rows hw
        rw [lookup_cons_ite] at hw
        split_ifs at hw with hkey
        · rw [LimitWindow.numSeconds_lookback_injective hkey]
          exact (Option.some.inj hw).symm
        · exact h w rows hw
      obtain ⟨hok, hkeep, hall⟩ := ih hnew
      refine ⟨hok, fun k rows hk => hkeep k rows ?_, fun r' hr' hneed' => ?_⟩
      · rw [lookup_cons_ite]
        split_ifs with hkey
        · rw [hkey] at hk
          simp [hk] at hnone
        · exact hk
      · rcases List.mem_cons.1 hr' with rfl | hr'
        · rw [hkeep (windowKey r') _ (by rw [lookup_cons_ite, if_pos rfl])]
          rfl
        · exact hall r' hr' hneed'
    · obtain ⟨hok, hkeep, hall⟩ := ih h
      refine ⟨hok, hkeep, fun r' hr' hneed' => ?_⟩
      rcases List.mem_cons.1 hr' with rfl | hr'
      · have hsome : (windows.lookup (windowKey r')).isSome := by
          simpa [hneed', Option.isSome_iff_ne_none] using hfetch
        obtain ⟨rows, hrows⟩ := Option.isSome_iff_exists.1 hsome
        rw [hkeep _ _ hrows]
        rfl
      · exact hall r' hr' hneed'

theorem lookup_resolveFromWindows_of_not_mem (now : Time)
    (windows : List (Int × List RevenueEvent)) {rules : List LimitRule} {id : String}
    (h : id ∉ rules.map LimitRule.id) :
    (resolveFromWindows now windows rules).lookup id = none := by
  induction rules with
  | nil => rfl
  | cons r rules ih =>
    have hne : id ≠ r.id := fun heq => h (by simp [heq])
    have hih := ih fun hmem => h (by simpa using Or.inr (by simpa using hmem))
    unfold resolveFromWindows
    simp only
    split_ifs
    · split
      · rw [lookup_cons_ite, if_neg hne]
        exact hih
      · exact hih
    · exact hih

theorem lookup_resolveFromWindows {now : Time} {windows : List (Int × List RevenueEvent)}
    {rules : List LimitRule} (hids : (rules.map LimitRule.id).Nodup) {r : LimitRule}
    (hr : r ∈ rules) :
    (resolveFromWindows now windows rules).lookup r.id =
      if needsRevenue r then (windows.lookup (windowKey r)).map (resolveRows now · r) else none := by
  induction rules with
  | nil => simp at hr
  | cons r' rules ih =>
    obtain ⟨hfresh, hids⟩ := List.nodup_cons.1 hids
    rcases List.mem_cons.1 hr with rfl | hr
    · have hrest := lookup_resolveFromWindows_of_not_mem now windows hfresh
      unfold resolveFromWindows
      simp only
      split_ifs
      · cases windows.lookup (windowKey r) with
        | none => simpa using hrest
        | some rows => simp
      · exact hrest
    · have hne : r.id ≠ r'.id := fun heq => hfresh (List.mem_map.2 ⟨r, hr, heq⟩)
      have hskip : (resolveFromWindows now windows (r' :: rules)).lookup r.id =
          (resolveFromWindows now windows rules).lookup r.id := by
        rw [resolveFromWindows]
        split_ifs
        · split
          · rw [lookup_cons_ite, if_neg hne]
          · rfl
        · rfl
      rw [hskip]
      exact ih hids hr

/-- Beside any rules with other ids, a rule resolves to what it resolves to alone. -/
theorem resolver_resolveAll {rules : List LimitRule} (now : Time)
    (fetch : Time → Time → List RevenueEvent) (hids : (rules.map LimitRule.id).Nodup)
    {r : LimitRule} (hr : r ∈ rules) :
    resolver (resolveAll rules now fetch) r = resolveRule now fetch r := by
  unfold resolver resolveAll resolveRule
  rw [lookup_resolveFromWindows hids hr]
  split_ifs with hneed
  · have hempty : WindowsOk now fetch [] := by intro w rows hw; simp at hw
    obtain ⟨hok, -, hall⟩ := fetchWindows_spec rules hempty
    obtain ⟨rows, hrows⟩ := Option.isSome_iff_exists.1 (hall r hr hneed)
    have hfetched := hok r.window rows hrows
    rw [hrows, ← hfetched]
    rfl
  · rfl

end LightTrack
