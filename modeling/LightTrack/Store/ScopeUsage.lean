import LightTrack.Store.Rollup
import Mathlib.Data.Int.ModEq

/-! # What a scope has spent

The ledger's side of a scoped rule.  A `model` scope is wider than SQL equality, so
its usage is a fold of the window grouped by `(provider, model)` through the matcher
itself; the other dimensions keep an equality query.

`scopedUsage` is the gate's side: the sum of the contributions of the events the rule
would be applied to.

* `scopeExpr_eq_text_iff` : SQL equality is the matcher, except that a JSON array or
  object equals its own text,
* `usageForScope_eq_ok_iff` : what the fold reads, and when,
* `usageSinceScoped_eq_iff` : exactly when the two sides agree.
-/

namespace LightTrack

/-! ## The ledger -/

/-- The grouped query a scope fold reads. -/
def foldQuery (project : String) (since : Time) (until_ : Option Time) : RollupQuery where
  project := some project
  groupBy := [.provider, .model]
  since := since
  until_ := until_
  timeKey := .receivedAt

/-- Whether a rollup row falls under the scope. -/
def rowHit (s : LimitScope) (r : RollupRow) : Bool :=
  s.matchesModelRow ((r.key 0).getD "") ((r.key 1).getD "")

/-- One round of the fold: the row is added if it falls under the scope. -/
def foldRow (scope : LimitScope) (u : Usage) (r : RollupRow) : Usage :=
  if !rowHit scope r then u
  else
    { costUsd := u.costUsd + r.costUsd
      calls := u.calls + r.calls
      tokens := wrapI64 (u.tokens + asI64 r.tokens)
      unpricedCalls := u.unpricedCalls + r.unpricedCalls
      clientCostUsd := u.clientCostUsd + r.clientReportedCostUsd }

/-- `fold`: sum the rows whose `(provider, model)` falls under `scope`. -/
def foldScope (rows : List RollupRow) (scope : LimitScope) : Usage :=
  rows.foldl (foldRow scope) .default

/-- `usage_for_scope`, over the backend's own rollup. -/
def usageForScope (rows : List EventRow) (project : String) (since : Time) (until_ : Option Time)
    (scope : LimitScope) : Except StoreError Usage :=
  (rollup rows (foldQuery project since until_)).map (foldScope · scope)

/-- `usage_since_scoped`. -/
def usageSinceScoped (rows : List EventRow) (project : String) (since : Time) (scope : LimitScope) :
    Except StoreError Usage :=
  if scope.foldsCanonicalFamily then usageForScope rows project since none scope
  else usageSinceExact rows project since scope

/-! ## The gate -/

/-- An event and the rowid it is stored under, as a row. -/
def storedRow (p : ℕ × LlmEvent) : EventRow := .ofEvent p.1 p.2

/-- Whether a scoped rule of `project` is charged for an event, in a window from `since`. -/
def chargedTo (project : String) (since : Time) (s : LimitScope) (p : ℕ × LlmEvent) : Bool :=
  p.2.projectId == project && decide (since ≤ p.2.receivedAt) && s.matches p.2.scopeDims

/-- The contributions of the project's in-window events that the scope matches. -/
def scopedUsage (evs : List (ℕ × LlmEvent)) (project : String) (since : Time) (s : LimitScope) :
    Usage :=
  usageOf (chargedTo project since s) (fun p => eventContribution p.2) evs

theorem inputTokens_storedRow (p : ℕ × LlmEvent) :
    (storedRow p).inputTokens = asI64 p.2.usage.input := by
  simp only [storedRow, EventRow.ofEvent]

theorem outputTokens_storedRow (p : ℕ × LlmEvent) :
    (storedRow p).outputTokens = asI64 p.2.usage.output := by
  simp only [storedRow, EventRow.ofEvent]

theorem metadata_bind_get (p : ℕ × LlmEvent) (key : String) :
    (storedRow p).metadata.bind (Json.get key) = p.2.metadata.get key := by
  unfold storedRow EventRow.ofEvent
  simp only
  cases p.2.metadata <;> rfl

/-- The client's mark on a cost reads the same from the event and from its row. -/
theorem isClientCost_storedRow (p : ℕ × LlmEvent) :
    (storedRow p).isClientCost = p.2.costIsClientReported := by
  rw [Bool.eq_iff_iff]
  unfold EventRow.isClientCost LlmEvent.costIsClientReported LlmEvent.costSource
  rw [beq_iff_eq, beq_iff_eq, jsonExtract_eq_text_iff, metadata_bind_get, Json.getStr_eq_some_iff]
  constructor
  · rintro (h | ⟨j, -, hcomp, hrender⟩)
    · exact h
    · -- no array or object is written as `client`
      rcases render_isComposite hcomp with h | h <;> rw [hrender] at h <;> simp at h
  · intro h
    exact .inl h

/-- A row contributes what its event does, up to the wrap of the token counters. -/
theorem contribution_storedRow (p : ℕ × LlmEvent) :
    (storedRow p).contribution =
      { eventContribution p.2 with
        tokens := asI64 p.2.usage.input + asI64 p.2.usage.output } := by
  unfold EventRow.contribution eventContribution
  simp only [isClientCost_storedRow]
  ext
  · rfl
  · rfl
  · simp only [inputTokens_storedRow, outputTokens_storedRow]
  · rfl
  · rfl

/-- The event's token figure is that of its row modulo `2 ^ 64`. -/
theorem eventContribution_tokens_emod (ev : LlmEvent) :
    (eventContribution ev).tokens % (2 * i64Bound) =
      (asI64 ev.usage.input + asI64 ev.usage.output) % (2 * i64Bound) := by
  have hsum := asI64_emod (ev.usage.input + ev.usage.output)
  have hin := asI64_emod ev.usage.input
  have hout := asI64_emod ev.usage.output
  rw [UInt64.toNat_add] at hsum
  unfold eventContribution
  unfold i64Bound at *
  simp only
  omega

/-! ## Value scopes -/

/-- Whether the row's member for the scope is an array or an object written exactly as the scope's
value. -/
def LimitScope.compositeHit (s : LimitScope) (p : ℕ × LlmEvent) : Bool :=
  match s with
  | .apiKey v => (p.2.metadata.get "api_key_id").any fun j => j.isComposite && j.render == v
  | .customer v => (p.2.metadata.get "customer_id").any fun j => j.isComposite && j.render == v
  | _ => false

theorem member_eq_text_iff (p : ℕ × LlmEvent) (key v : String) :
    jsonExtract (storedRow p).metadata key = .text v ↔
      p.2.metadata.getStr key = some v ∨
        ((p.2.metadata.get key).any fun j => j.isComposite && j.render == v) = true := by
  rw [jsonExtract_eq_text_iff, metadata_bind_get, Json.getStr_eq_some_iff]
  simp [Option.any_eq_true]

/-- **SQL equality is the matcher**, except for the composite members that are written as the
value. -/
theorem scopeExpr_eq_text_iff {s : LimitScope} (hs : s.foldsCanonicalFamily = false)
    (p : ℕ × LlmEvent) :
    scopeExpr s (storedRow p) = .text s.value ↔
      s.matches p.2.scopeDims = true ∨ s.compositeHit p = true := by
  cases s with
  | provider v =>
    simp [scopeExpr, LimitScope.value, LimitScope.matches, LimitScope.compositeHit, storedRow,
      EventRow.ofEvent, LlmEvent.scopeDims]
  | model v => simp [LimitScope.foldsCanonicalFamily] at hs
  | name v =>
    cases hname : p.2.name <;>
      simp [scopeExpr, LimitScope.value, LimitScope.matches, LimitScope.compositeHit, storedRow,
        EventRow.ofEvent, LlmEvent.scopeDims, hname]
  | apiKey v =>
    have h := member_eq_text_iff p "api_key_id" v
    simpa [scopeExpr, LimitScope.value, LimitScope.matches, LimitScope.compositeHit,
      LlmEvent.scopeDims, LlmEvent.apiKeyId] using h
  | customer v =>
    have h := member_eq_text_iff p "customer_id" v
    simpa [scopeExpr, LimitScope.value, LimitScope.matches, LimitScope.compositeHit,
      LlmEvent.scopeDims, LlmEvent.customerId] using h

/-- A composite member is no string. -/
theorem getStr_of_composite {metadata : Json} {key v : String}
    (h : ((metadata.get key).any fun j => j.isComposite && j.render == v) = true) :
    metadata.getStr key = none := by
  cases hget : metadata.get key with
  | none => simp [Json.getStr, hget]
  | some j =>
    rw [hget] at h
    cases j <;> simp_all [Json.isComposite, Json.getStr, Json.asStr]

/-- What equals the value only as text is not matched. -/
theorem not_matches_of_compositeHit {s : LimitScope} {p : ℕ × LlmEvent}
    (h : s.compositeHit p = true) : s.matches p.2.scopeDims = false := by
  cases s with
  | provider v => simp [LimitScope.compositeHit] at h
  | model v => simp [LimitScope.compositeHit] at h
  | name v => simp [LimitScope.compositeHit] at h
  | apiKey v =>
    have hno := getStr_of_composite h
    simp [LimitScope.matches, LlmEvent.scopeDims, LlmEvent.apiKeyId, hno]
  | customer v =>
    have hno := getStr_of_composite h
    simp [LimitScope.matches, LlmEvent.scopeDims, LlmEvent.customerId, hno]

/-- Rows whose token sums fit contribute what their events do. -/
theorem contribution_of_fit {p : ℕ × LlmEvent} (h : (storedRow p).TokensFit) :
    (storedRow p).contribution = eventContribution p.2 := by
  have hfit : InI64 (asI64 p.2.usage.input + asI64 p.2.usage.output) := by
    simpa only [EventRow.TokensFit, inputTokens_storedRow, outputTokens_storedRow] using h
  have hwrap : InI64 (eventContribution p.2).tokens := by
    simp only [eventContribution]
    exact asI64_inI64 _
  rw [contribution_storedRow, hfit.eq_of_emod hwrap (eventContribution_tokens_emod p.2).symm]

theorem scopedUsage_calls (evs : List (ℕ × LlmEvent)) (project : String) (since : Time)
    (s : LimitScope) :
    (scopedUsage evs project since s).calls = (evs.filter (chargedTo project since s)).length := by
  unfold scopedUsage usageOf
  induction evs.filter (chargedTo project since s) with
  | nil => rfl
  | cons p l ih =>
    have hone : (eventContribution p.2).calls = 1 := rfl
    rw [List.map_cons, List.sum_cons, Usage.add_calls, ih, hone, List.length_cons]
    push_cast
    exact add_comm _ _

/-- A charged event is one whose row SQL finds by equality. -/
theorem equals_of_chargedTo {s : LimitScope} (hs : s.foldsCanonicalFamily = false)
    {project : String} {since : Time} {p : ℕ × LlmEvent} (h : chargedTo project since s p = true) :
    (inWindow project since (storedRow p) && scopeExpr s (storedRow p) == .text s.value) = true := by
  rcases Bool.and_eq_true_iff.1 h with ⟨hwin, hmatch⟩
  rw [Bool.and_eq_true, beq_iff_eq, scopeExpr_eq_text_iff hs]
  exact ⟨hwin, .inl hmatch⟩

/-- The condition under which a value scope's ledger is exact: no composite member in the window is
written as the value, and the token sums of the charged rows can be read. -/
def ValueExact (evs : List (ℕ × LlmEvent)) (project : String) (since : Time) (s : LimitScope) :
    Prop :=
  (∀ p ∈ evs, inWindow project since (storedRow p) = true → s.compositeHit p = false) ∧
    GroupFits ((evs.filter (chargedTo project since s)).map storedRow)

theorem usageSinceExact_eq_iff {s : LimitScope} (hs : s.foldsCanonicalFamily = false)
    (evs : List (ℕ × LlmEvent)) (project : String) (since : Time) :
    usageSinceExact (evs.map storedRow) project since s = .ok (scopedUsage evs project since s) ↔
      ValueExact evs project since s := by
  -- the rows SQL finds, as events
  let equals : ℕ × LlmEvent → Bool := fun p =>
    inWindow project since (storedRow p) && scopeExpr s (storedRow p) == .text s.value
  have hsql : usageSinceExact (evs.map storedRow) project since s =
      usageCols ((evs.filter equals).map storedRow) := by
    unfold usageSinceExact
    rw [List.filter_map]
    rfl
  have hsub : evs.filter (chargedTo project since s) =
      (evs.filter equals).filter (chargedTo project since s) := by
    rw [List.filter_filter]
    apply List.filter_congr
    intro p _
    cases hp : chargedTo project since s p with
    | false => rfl
    | true => exact (equals_of_chargedTo hs hp).symm
  rw [hsql, usageCols_eq_ok_iff]
  constructor
  · rintro ⟨hfits, husage⟩
    -- both sides count as many calls, so they count the same rows
    have hcalls := congrArg Usage.calls husage
    rw [scopedUsage_calls, sum_contribution, List.length_map] at hcalls
    simp only at hcalls
    have hlen : ((evs.filter equals).filter (chargedTo project since s)).length =
        (evs.filter equals).length := by
      rw [← hsub]
      exact_mod_cast hcalls
    have hall := List.length_filter_eq_length_iff.1 hlen
    constructor
    · intro p hp hwin
      cases hcomp : s.compositeHit p with
      | false => rfl
      | true =>
        have hequals : equals p = true := by
          simp only [equals, Bool.and_eq_true, beq_iff_eq, scopeExpr_eq_text_iff hs]
          exact ⟨hwin, .inr hcomp⟩
        have hcharged := hall p (List.mem_filter.2 ⟨hp, hequals⟩)
        unfold chargedTo at hcharged
        rw [not_matches_of_compositeHit hcomp] at hcharged
        simp at hcharged
    · rw [hsub, List.filter_eq_self.2 hall]
      exact hfits
  · rintro ⟨hcomp, hfits⟩
    have hsame : evs.filter equals = evs.filter (chargedTo project since s) := by
      apply List.filter_congr
      intro p hp
      rw [Bool.eq_iff_iff]
      constructor
      · intro h
        simp only [equals, Bool.and_eq_true, beq_iff_eq, scopeExpr_eq_text_iff hs] at h
        rcases h with ⟨hwin, hmatch | hcon⟩
        · exact Bool.and_eq_true_iff.2 ⟨hwin, hmatch⟩
        · rw [hcomp p hp hwin] at hcon
          cases hcon
      · exact equals_of_chargedTo hs
    rw [hsame]
    refine ⟨hfits, ?_⟩
    unfold scopedUsage usageOf
    rw [List.map_map]
    refine congrArg List.sum (List.map_congr_left ?_)
    intro p hp
    have hfit := hfits.1 _ (List.mem_map_of_mem hp)
    simp only [Function.comp_apply]
    rw [contribution_of_fit hfit]

/-! ## Model scopes -/

/-- Whether a group of the fold query falls under the scope. -/
def groupHit (s : LimitScope) (ks : List SqlValue) : Bool :=
  s.matchesModelRow (((ks.map SqlValue.asText)[0]?).join.getD "")
    (((ks.map SqlValue.asText)[1]?).join.getD "")

/-- The row a group is read as. -/
def readGroup (g : List SqlValue × List EventRow) : RollupRow :=
  groupRow (g.1.map SqlValue.asText) g.2

/-- The groups of the fold query. -/
def modelGroups (rows : List EventRow) (project : String) (since : Time) :
    List (List SqlValue × List EventRow) :=
  Group.groupsBy (fun r => [.text r.provider, .text r.model]) (rows.filter (inWindow project since))

/-- The tokens the clamp to `u64` adds to a group: what its negative sums lack to zero. -/
def clampLoss (rows : List EventRow) : Int :=
  max (-(rows.map EventRow.inputTokens).sum) 0 + max (-(rows.map EventRow.outputTokens).sum) 0

theorem groups_foldQuery (rows : List EventRow) (project : String) (since : Time) :
    (foldQuery project since none).groups rows = modelGroups rows project since := by
  have hsel : (foldQuery project since none).selects = inWindow project since := by
    funext r
    simp only [RollupQuery.selects, foldQuery, timeExpr, Option.all_some, Option.all_none,
      List.all_nil, Bool.not_false, Bool.true_or, Bool.and_true]
    rfl
  unfold RollupQuery.groups modelGroups
  rw [hsel]
  rfl

theorem textual_of_mem_modelGroups {rows : List EventRow} {project : String} {since : Time}
    {g : List SqlValue × List EventRow} (h : g ∈ modelGroups rows project since) :
    ∀ k ∈ g.1, k.IsTextual := by
  rcases List.mem_map.1 h with ⟨ks, hks, rfl⟩
  rw [List.mem_dedup] at hks
  rcases List.mem_map.1 hks with ⟨r, -, rfl⟩
  intro k hk
  simp only [List.mem_cons, List.not_mem_nil, or_false] at hk
  rcases hk with rfl | rfl
  · exact .inr ⟨_, rfl⟩
  · exact .inr ⟨_, rfl⟩

/-- **What the fold reads**: it succeeds exactly when the token sums of every group of the window
can be read, also of the groups outside the scope. -/
theorem usageForScope_eq_ok_iff (rows : List EventRow) (project : String) (since : Time)
    (s : LimitScope) (u : Usage) :
    usageForScope rows project since none s = .ok u ↔
      (∀ g ∈ modelGroups rows project since, SumsFit g.2) ∧
        u = foldScope ((modelGroups rows project since).map readGroup) s := by
  have hvalid : (foldQuery project since none).invalid = none := by
    simp [RollupQuery.invalid, foldQuery, MAX_GROUP_BY, List.zipIdx]
  have hread : ∀ out, (modelGroups rows project since).mapM rollupRow = .ok out ↔
      (∀ g ∈ modelGroups rows project since, (∀ k ∈ g.1, k.IsTextual) ∧ SumsFit g.2) ∧
        out = (modelGroups rows project since).map readGroup :=
    fun out => Traverse.mapM_eq_map_iff rollupRow_eq_ok_iff
  unfold usageForScope rollup
  rw [hvalid, groups_foldQuery]
  simp only
  cases hm : (modelGroups rows project since).mapM rollupRow with
  | error e =>
    have hno : ¬ ∀ g ∈ modelGroups rows project since, SumsFit g.2 := by
      intro hall
      rw [(hread _).2 ⟨fun g hg => ⟨textual_of_mem_modelGroups hg, hall g hg⟩, rfl⟩] at hm
      cases hm
    constructor
    · intro h
      cases h
    · rintro ⟨hall, -⟩
      exact absurd hall hno
  | ok out =>
    rcases (hread _).1 hm with ⟨hall, rfl⟩
    have hfits : ∀ g ∈ modelGroups rows project since, SumsFit g.2 := fun g hg => (hall g hg).2
    simp only [Except.map, Except.ok.injEq]
    constructor
    · intro h
      exact ⟨hfits, h.symm⟩
    · rintro ⟨-, rfl⟩
      rfl

/-! ### The fold as sums -/

theorem wrapI64_add_left (a b : Int) : wrapI64 (wrapI64 a + b) = wrapI64 (a + b) := by
  have ha := wrapI64_emod a
  have hleft := wrapI64_emod (wrapI64 a + b)
  have hright := wrapI64_emod (a + b)
  refine (wrapI64_inI64 _).eq_of_emod (wrapI64_inI64 _) ?_
  unfold i64Bound at *
  omega

theorem sum_filter_cons {α M : Type*} [AddMonoid M] {p : α → Bool} {a : α} (h : p a = true)
    (f : α → M) (l : List α) :
    (((a :: l).filter p).map f).sum = f a + ((l.filter p).map f).sum := by
  rw [List.filter_cons_of_pos h, List.map_cons, List.sum_cons]

/-- The fold adds up the rows that fall under the scope, the tokens with `i64` wrap. -/
theorem foldl_foldRow (rows : List RollupRow) (s : LimitScope) {u : Usage} (hu : InI64 u.tokens) :
    rows.foldl (foldRow s) u =
      { costUsd := u.costUsd + ((rows.filter (rowHit s)).map RollupRow.costUsd).sum
        calls := u.calls + ((rows.filter (rowHit s)).map fun r => (r.calls : Int)).sum
        tokens := wrapI64 (u.tokens + ((rows.filter (rowHit s)).map fun r => asI64 r.tokens).sum)
        unpricedCalls :=
          u.unpricedCalls + ((rows.filter (rowHit s)).map fun r => (r.unpricedCalls : Int)).sum
        clientCostUsd := u.clientCostUsd +
          ((rows.filter (rowHit s)).map RollupRow.clientReportedCostUsd).sum } := by
  induction rows generalizing u with
  | nil => simp [wrapI64_of_inI64 hu]
  | cons r rows ih =>
    rw [List.foldl_cons]
    cases hhit : rowHit s r with
    | false =>
      have hstep : foldRow s u r = u := by simp [foldRow, hhit]
      rw [hstep, List.filter_cons_of_neg (by simp [hhit]), ih hu]
    | true =>
      have hstep : foldRow s u r =
          { costUsd := u.costUsd + r.costUsd
            calls := u.calls + r.calls
            tokens := wrapI64 (u.tokens + asI64 r.tokens)
            unpricedCalls := u.unpricedCalls + r.unpricedCalls
            clientCostUsd := u.clientCostUsd + r.clientReportedCostUsd } := by
        simp [foldRow, hhit]
      have hnext : InI64 (foldRow s u r).tokens := by
        rw [hstep]
        exact wrapI64_inI64 _
      rw [ih hnext, hstep]
      simp only [sum_filter_cons hhit, add_assoc, wrapI64_add_left]

theorem foldScope_eq (rows : List RollupRow) (s : LimitScope) :
    foldScope rows s =
      { costUsd := ((rows.filter (rowHit s)).map RollupRow.costUsd).sum
        calls := ((rows.filter (rowHit s)).map fun r => (r.calls : Int)).sum
        tokens := wrapI64 ((rows.filter (rowHit s)).map fun r => asI64 r.tokens).sum
        unpricedCalls := ((rows.filter (rowHit s)).map fun r => (r.unpricedCalls : Int)).sum
        clientCostUsd := ((rows.filter (rowHit s)).map RollupRow.clientReportedCostUsd).sum } := by
  have hzero : InI64 Usage.default.tokens := by decide
  unfold foldScope
  rw [foldl_foldRow rows s hzero]
  simp only [Usage.default, zero_add]

theorem toNat_clampU64 {v : Int} (h : InI64 v) : ((clampU64 v).toNat : Int) = max v 0 := by
  have hv : (max v 0 % (2 * i64Bound)).toNat < 2 ^ 64 := by
    unfold i64Bound
    omega
  unfold InI64 at h
  unfold clampU64 EventRow.asU64
  rw [UInt64.toNat_ofNat_of_lt' hv]
  unfold i64Bound at *
  omega

/-- The token figure of a readable group: its exact sum, plus what the clamp adds. -/
theorem readGroup_tokens_emod {g : List SqlValue × List EventRow} (h : GroupTotalsFit g.2) :
    asI64 (readGroup g).tokens % (2 * i64Bound) =
      ((tokenSums g.2).sum + clampLoss g.2) % (2 * i64Bound) := by
  rcases h with ⟨hin, hout⟩
  have hcin := toNat_clampU64 hin
  have hcout := toNat_clampU64 hout
  have hsplit : (tokenSums g.2).sum =
      (g.2.map EventRow.inputTokens).sum + (g.2.map EventRow.outputTokens).sum := by
    unfold tokenSums
    exact List.sum_map_add
  rw [asI64_emod, hsplit]
  unfold clampLoss
  simp only [readGroup, groupRow, RollupRow.tokens, UInt64.toNat_add]
  unfold InI64 i64Bound at *
  omega

theorem sum_emod_congr {α : Type*} {l : List α} {f g : α → Int} {m : Int}
    (h : ∀ a ∈ l, f a % m = g a % m) : (l.map f).sum % m = (l.map g).sum % m := by
  induction l with
  | nil => rfl
  | cons a l ih =>
    rw [List.map_cons, List.map_cons, List.sum_cons, List.sum_cons, Int.add_emod,
      h a (List.mem_cons_self ..), ih fun b hb => h b (List.mem_cons_of_mem _ hb), ← Int.add_emod]

/-- What the clamp adds over the groups that fall under the scope. -/
def clampLossOf (rows : List EventRow) (project : String) (since : Time) (s : LimitScope) : Int :=
  (((modelGroups rows project since).filter fun g => groupHit s g.1).map fun g =>
    clampLoss g.2).sum

/-- The rows of the window that fall under the scope. -/
def chargedRows (rows : List EventRow) (project : String) (since : Time) (s : LimitScope) :
    List EventRow :=
  rows.filter fun r => inWindow project since r && s.matchesModelRow r.provider r.model

/-- A sum over the groups under the scope is a sum over the rows under it. -/
theorem sum_modelGroups {M : Type*} [AddCommMonoid M] (f : EventRow → M) (rows : List EventRow)
    (project : String) (since : Time) (s : LimitScope) :
    (((modelGroups rows project since).filter fun g => groupHit s g.1).map fun g =>
        (g.2.map f).sum).sum = ((chargedRows rows project since s).map f).sum := by
  unfold modelGroups chargedRows
  rw [Group.sum_groupsBy_filter (p := groupHit s), List.filter_filter]
  refine congrArg List.sum (congrArg (List.map f) (List.filter_congr ?_))
  intro r _
  rw [Bool.and_comm]
  rfl

theorem length_eq_sum {α : Type*} (l : List α) : (l.length : Int) = (l.map fun _ => 1).sum := by
  simp

theorem length_filter_eq_sum {α : Type*} (p : α → Bool) (l : List α) :
    ((l.filter p).length : Int) = (l.map fun a => if p a then 1 else 0).sum := by
  induction l with
  | nil => rfl
  | cons a l ih =>
    cases hp : p a <;> simp [hp, ← ih, add_comm]

/-- **The fold over readable groups** is the sum of the charged rows' contributions, except that
the tokens carry what the clamp added and wrap. -/
theorem foldScope_modelGroups {rows : List EventRow} {project : String} {since : Time}
    {s : LimitScope} (h : ∀ g ∈ modelGroups rows project since, GroupTotalsFit g.2) :
    foldScope ((modelGroups rows project since).map readGroup) s =
      { ((chargedRows rows project since s).map EventRow.contribution).sum with
        tokens := wrapI64 ((tokenSums (chargedRows rows project since s)).sum +
          clampLossOf rows project since s) } := by
  have hfilter : ((modelGroups rows project since).map readGroup).filter (rowHit s) =
      ((modelGroups rows project since).filter fun g => groupHit s g.1).map readGroup := by
    rw [List.filter_map]
    rfl
  rw [foldScope_eq, hfilter, sum_contribution]
  simp only [List.map_map]
  ext
  · exact sum_modelGroups (fun r => r.costUsd.getD 0) rows project since s
  · have hsum := sum_modelGroups (fun _ => (1 : Int)) rows project since s
    simp only [← length_eq_sum] at hsum
    exact hsum
  · -- the tokens, modulo `2 ^ 64`
    apply (wrapI64_inI64 _).eq_of_emod (wrapI64_inI64 _)
    have hgroups := sum_emod_congr (m := 2 * i64Bound)
      (l := (modelGroups rows project since).filter fun g => groupHit s g.1)
      fun g hg => readGroup_tokens_emod (h g (List.mem_filter.1 hg).1)
    have htokens : (((modelGroups rows project since).filter fun g => groupHit s g.1).map fun g =>
        (tokenSums g.2).sum).sum = (tokenSums (chargedRows rows project since s)).sum :=
      sum_modelGroups (fun r => r.inputTokens + r.outputTokens) rows project since s
    rw [List.sum_map_add, htokens] at hgroups
    simp only [Function.comp_def]
    rw [wrapI64_emod, wrapI64_emod, hgroups]
    simp only [clampLossOf]
  · have hsum := sum_modelGroups (fun r => if r.costUsd.isNone then (1 : Int) else 0) rows project
      since s
    simp only [← length_filter_eq_sum] at hsum ⊢
    exact hsum
  · exact sum_modelGroups (fun r => if r.isClientCost then r.costUsd.getD 0 else 0) rows project
      since s

/-! ## Gate and ledger -/

/-- Sums of snapshots that agree except on tokens agree except on tokens. -/
theorem sum_eq_except_tokens {α : Type*} {f g : α → Usage} {l : List α}
    (h : ∀ a ∈ l, f a = { g a with tokens := (f a).tokens }) :
    (l.map f).sum =
      { (l.map g).sum with tokens := (l.map fun a => (f a).tokens).sum } := by
  induction l with
  | nil => rfl
  | cons a l ih =>
    have ha := h a (List.mem_cons_self ..)
    have hl := ih fun b hb => h b (List.mem_cons_of_mem _ hb)
    rw [List.map_cons, List.sum_cons, hl, List.map_cons, List.sum_cons, List.map_cons,
      List.sum_cons]
    have hcost : (f a).costUsd = (g a).costUsd := by rw [ha]
    have hcalls : (f a).calls = (g a).calls := by rw [ha]
    have hunpriced : (f a).unpricedCalls = (g a).unpricedCalls := by rw [ha]
    have hclient : (f a).clientCostUsd = (g a).clientCostUsd := by rw [ha]
    ext <;> simp [hcost, hcalls, hunpriced, hclient]

/-- The condition under which a model scope's ledger is exact: the token sums of every group of the
window can be read, the charged tokens add up to an `i64`, and the clamp adds nothing modulo
`2 ^ 64`. -/
def ModelExact (evs : List (ℕ × LlmEvent)) (project : String) (since : Time) (s : LimitScope) :
    Prop :=
  (∀ g ∈ modelGroups (evs.map storedRow) project since, SumsFit g.2) ∧
    InI64 (scopedUsage evs project since s).tokens ∧
      2 * i64Bound ∣ clampLossOf (evs.map storedRow) project since s

/-- A total is the wrapped sum of something congruent to it and a loss exactly when it is an `i64`
and the loss vanishes modulo `2 ^ 64`. -/
theorem eq_wrapI64_add_iff {total sum loss : Int}
    (h : sum % (2 * i64Bound) = total % (2 * i64Bound)) :
    total = wrapI64 (sum + loss) ↔ InI64 total ∧ 2 * i64Bound ∣ loss := by
  have hwrap := wrapI64_emod (sum + loss)
  constructor
  · intro heq
    rw [← heq] at hwrap
    constructor
    · rw [heq]
      exact wrapI64_inI64 _
    · unfold i64Bound at *
      omega
  · rintro ⟨hfit, hloss⟩
    apply hfit.eq_of_emod (wrapI64_inI64 _)
    rw [hwrap]
    unfold i64Bound at *
    omega

/-- For a model scope the matcher and its form for aggregate rows are the same. -/
theorem matchesModelRow_eq {s : LimitScope} (hs : s.foldsCanonicalFamily = true)
    (p : ℕ × LlmEvent) :
    s.matchesModelRow (storedRow p).provider (storedRow p).model = s.matches p.2.scopeDims := by
  cases s with
  | model v => rfl
  | _ => simp [LimitScope.foldsCanonicalFamily] at hs

theorem chargedRows_map_storedRow {s : LimitScope} (hs : s.foldsCanonicalFamily = true)
    (evs : List (ℕ × LlmEvent)) (project : String) (since : Time) :
    chargedRows (evs.map storedRow) project since s =
      (evs.filter (chargedTo project since s)).map storedRow := by
  unfold chargedRows
  rw [List.filter_map]
  refine congrArg (List.map storedRow) (List.filter_congr ?_)
  intro p _
  simp only [Function.comp_apply, matchesModelRow_eq hs]
  rfl

/-- The gate's side in the shape of the ledger's: the rows' contributions, with the events' tokens. -/
theorem scopedUsage_eq (evs : List (ℕ × LlmEvent)) (project : String) (since : Time)
    (s : LimitScope) :
    scopedUsage evs project since s =
      { (((evs.filter (chargedTo project since s)).map storedRow).map EventRow.contribution).sum with
        tokens := ((evs.filter (chargedTo project since s)).map fun p =>
          (eventContribution p.2).tokens).sum } := by
  unfold scopedUsage usageOf
  rw [List.map_map]
  refine sum_eq_except_tokens ?_
  intro p _
  rw [Function.comp_apply, contribution_storedRow]

theorem tokenSums_storedRow_emod (evs : List (ℕ × LlmEvent)) :
    (tokenSums (evs.map storedRow)).sum % (2 * i64Bound) =
      (evs.map fun p => (eventContribution p.2).tokens).sum % (2 * i64Bound) := by
  unfold tokenSums
  rw [List.map_map]
  refine sum_emod_congr ?_
  intro p _
  rw [eventContribution_tokens_emod, Function.comp_apply, inputTokens_storedRow,
    outputTokens_storedRow]

theorem Usage.with_tokens_eq_iff (u : Usage) (a b : Int) :
    ({ u with tokens := a } : Usage) = { u with tokens := b } ↔ a = b := by
  constructor
  · intro h
    exact congrArg Usage.tokens h
  · rintro rfl
    rfl

/-- Over groups that can be read, the fold is the gate's side exactly when the charged tokens are
an `i64` and the clamp adds nothing. -/
theorem scopedUsage_eq_fold_iff {s : LimitScope} (hs : s.foldsCanonicalFamily = true)
    {evs : List (ℕ × LlmEvent)} {project : String} {since : Time}
    (h : ∀ g ∈ modelGroups (evs.map storedRow) project since, GroupTotalsFit g.2) :
    scopedUsage evs project since s =
        foldScope ((modelGroups (evs.map storedRow) project since).map readGroup) s ↔
      InI64 (scopedUsage evs project since s).tokens ∧
        2 * i64Bound ∣ clampLossOf (evs.map storedRow) project since s := by
  have htokens := congrArg Usage.tokens (scopedUsage_eq evs project since s)
  rw [foldScope_modelGroups h, chargedRows_map_storedRow hs, htokens, scopedUsage_eq,
    Usage.with_tokens_eq_iff]
  exact eq_wrapI64_add_iff (tokenSums_storedRow_emod _)

theorem usageForScope_eq_iff {s : LimitScope} (hs : s.foldsCanonicalFamily = true)
    (evs : List (ℕ × LlmEvent)) (project : String) (since : Time) :
    usageForScope (evs.map storedRow) project since none s =
        .ok (scopedUsage evs project since s) ↔ ModelExact evs project since s := by
  unfold ModelExact
  rw [usageForScope_eq_ok_iff]
  refine and_congr_right ?_
  intro hfits
  exact scopedUsage_eq_fold_iff hs fun g hg => (hfits g hg).groupTotalsFit

/-- The condition under which the ledger of a scope is exact. -/
def LedgerExact (evs : List (ℕ × LlmEvent)) (project : String) (since : Time) (s : LimitScope) :
    Prop :=
  if s.foldsCanonicalFamily then ModelExact evs project since s else ValueExact evs project since s

/-- A call whose `customer_id` is the array `["acme"]`. -/
def arrayCustomer : LlmEvent where
  id := "e1"
  projectId := "p"
  ts := 0
  receivedAt := 0
  provider := .new "openai"
  model := "gpt-4o"
  usage := { input := 10, output := 5 }
  costUsd := some 1
  metadata := .obj [("customer_id", .arr [.str "acme"])]

/-- Whether a stored row falls under the scope, as the ledger decides it. -/
def LimitScope.covers (s : LimitScope) (r : EventRow) : Bool :=
  if s.foldsCanonicalFamily then s.matchesModelRow r.provider r.model
  else scopeExpr s r == .text s.value

/-- The rows a scoped query sums. -/
def scopeRows (rows : List EventRow) (project : String) (since : Time) (s : LimitScope) :
    List EventRow :=
  rows.filter fun r => inWindow project since r && s.covers r

/-- Whether a scoped query can be read: a model scope reads every group of the window. -/
def ScopeReads (rows : List EventRow) (project : String) (since : Time) (s : LimitScope) : Prop :=
  if s.foldsCanonicalFamily then ∀ g ∈ modelGroups rows project since, SumsFit g.2
  else GroupFits (scopeRows rows project since s)

/-- The tokens a scoped query reports: a model scope's wrap, and carry what the clamp added. -/
def scopeTokens (rows : List EventRow) (project : String) (since : Time) (s : LimitScope) : Int :=
  if s.foldsCanonicalFamily then
    wrapI64 ((tokenSums (scopeRows rows project since s)).sum + clampLossOf rows project since s)
  else (tokenSums (scopeRows rows project since s)).sum

/-- **What a scoped query reports**: the contributions of its rows, but for the tokens. -/
theorem usageSinceScoped_eq_ok_iff (rows : List EventRow) (project : String) (since : Time)
    (s : LimitScope) (u : Usage) :
    usageSinceScoped rows project since s = .ok u ↔
      ScopeReads rows project since s ∧
        u = { ((scopeRows rows project since s).map EventRow.contribution).sum with
          tokens := scopeTokens rows project since s } := by
  unfold usageSinceScoped ScopeReads scopeTokens
  cases hs : s.foldsCanonicalFamily with
  | true =>
    have hrows : scopeRows rows project since s = chargedRows rows project since s := by
      unfold scopeRows chargedRows LimitScope.covers
      rw [hs]
      rfl
    rw [if_pos rfl, if_pos rfl, if_pos rfl, usageForScope_eq_ok_iff, hrows]
    refine and_congr_right ?_
    intro hfits
    rw [foldScope_modelGroups fun g hg => (hfits g hg).groupTotalsFit]
  | false =>
    have hrows : scopeRows rows project since s =
        rows.filter fun r => inWindow project since r && scopeExpr s r == .text s.value := by
      unfold scopeRows LimitScope.covers
      rw [hs]
      rfl
    have hsum := sum_contribution (scopeRows rows project since s)
    rw [if_neg Bool.false_ne_true, if_neg Bool.false_ne_true, if_neg Bool.false_ne_true]
    unfold usageSinceExact
    rw [← hrows, usageCols_eq_ok_iff, hsum]

/-! ## The figures of a selection -/

/-- What a selection of rows is charged: every call at the mean cost of the priced ones. -/
def chargeOf (rows : List EventRow) : ℚ :=
  let priced := rows.filter fun r => r.costUsd.isSome
  (rows.map fun r => r.costUsd.getD 0).sum * (rows.length / priced.length)

/-- A cost figure does not read the tokens. -/
theorem costForLimits_with_tokens (u : Usage) (n : Int) :
    ({ u with tokens := n } : Usage).costForLimits = u.costForLimits := rfl

theorem sum_getD_of_unpriced {rows : List EventRow}
    (h : (rows.filter fun r => r.costUsd.isSome).length = 0) :
    (rows.map fun r => r.costUsd.getD 0).sum = 0 := by
  rw [List.length_eq_zero_iff, List.filter_eq_nil_iff] at h
  apply List.sum_eq_zero
  intro x hx
  rcases List.mem_map.1 hx with ⟨r, hr, rfl⟩
  rw [Option.not_isSome_iff_eq_none.1 (h r hr), Option.getD_none]

/-- Priced and unpriced calls. -/
theorem unpriced_eq (rows : List EventRow) :
    (rows.map fun r => if r.costUsd.isNone then (1 : Int) else 0).sum =
      rows.length - (rows.filter fun r => r.costUsd.isSome).length := by
  induction rows with
  | nil => rfl
  | cons r rows ih =>
    rw [List.map_cons, List.sum_cons, ih, List.length_cons]
    cases hcost : r.costUsd with
    | none =>
      rw [List.filter_cons_of_neg (by simp [hcost])]
      push_cast
      simp only [Option.isNone_none, if_true]
      ring
    | some c =>
      rw [List.filter_cons_of_pos (by simp [hcost]), List.length_cons]
      push_cast
      simp only [Option.isNone_some, Bool.false_eq_true, if_false]
      ring

/-- **The cost figure of a selection** is what its rows are charged. -/
theorem costForLimits_sum (rows : List EventRow) :
    (rows.map EventRow.contribution).sum.costForLimits = chargeOf rows := by
  have hle : (rows.filter fun r => r.costUsd.isSome).length ≤ rows.length :=
    List.length_filter_le _ _
  rw [sum_contribution]
  unfold Usage.costForLimits Usage.costEvidence chargeOf
  simp only
  rw [unpriced_eq]
  have hpriced : (rows.length : Int) -
      (rows.length - (rows.filter fun r => r.costUsd.isSome).length) =
        (rows.filter fun r => r.costUsd.isSome).length := by
    ring
  rw [hpriced]
  by_cases hzero : (rows.filter fun r => r.costUsd.isSome).length = 0
  · -- no call is priced
    rw [sum_getD_of_unpriced hzero, hzero]
    simp
  · have hpos : ((rows.filter fun r => r.costUsd.isSome).length : ℚ) ≠ 0 := by
      exact_mod_cast hzero
    split_ifs with hboth
    · push_cast
      field_simp
      ring
    · -- every call is priced
      have hall : (rows.filter fun r => r.costUsd.isSome).length = rows.length := by
        omega
      rw [hall, add_zero, div_self, mul_one]
      rw [← hall]
      exact hpos

end LightTrack
