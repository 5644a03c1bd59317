import LightTrack.Postgres.Usage

/-! # What the gate charges a rule for

The usage an admission transaction reads for a rule, against the sum of the
contributions of the events the rule applies to.  The query compares every dimension
exactly, while the matcher folds a model into its family and takes a key or a customer
only from a string.

* `misread` : the rows on which the two differ,
* `usageInTx_eq_iff` : the gate's number is right exactly when no row of the window is
  misread, and the rows can be read at all.
-/

namespace LightTrack

/-- Whether a rule of `project` with this scope is charged for an event, in a window from
`since`. -/
def chargedToRule (project : String) (since : Time) (scope : Option LimitScope)
    (p : ℕ × LlmEvent) : Bool :=
  p.2.projectId == project && decide (since ≤ p.2.receivedAt) && scopeMatches scope p.2.scopeDims

/-- The contributions of the project's in-window events that the rule applies to. -/
def ruleUsage (evs : List (ℕ × LlmEvent)) (project : String) (since : Time)
    (scope : Option LimitScope) : Usage :=
  usageOf (chargedToRule project since scope) (fun p => eventContribution p.2) evs

/-- The rows of these events. -/
def chargedRowsOf (evs : List (ℕ × LlmEvent)) (project : String) (since : Time)
    (scope : Option LimitScope) : List EventRow :=
  (evs.filter (chargedToRule project since scope)).map storedRow

/-- Whether the exact comparison decides otherwise than the matcher: another spelling of the
model, or a member that is no string but prints as the value. -/
def LimitScope.misread (s : LimitScope) (p : ℕ × LlmEvent) : Bool :=
  match s with
  | .model v => s.matches p.2.scopeDims && p.2.model != v
  | .apiKey v => (p.2.metadata.get "api_key_id").any (Jsonb.printsAs v)
  | .customer v => (p.2.metadata.get "customer_id").any (Jsonb.printsAs v)
  | _ => false

/-- The condition under which the gate's number for a scope is exact. -/
structure GateExact (evs : List (ℕ × LlmEvent)) (project : String) (since : Time)
    (scope : Option LimitScope) : Prop where
  /-- Where the dimension is a metadata member, every row of the window can be cast. -/
  comparable : ∀ s ∈ scope, ∀ p ∈ evs, Postgres.Comparable project since s (storedRow p)
  /-- No row of the window is misread. -/
  spelled : ∀ s ∈ scope, ∀ p ∈ evs, inWindow project since (storedRow p) = true →
    s.misread p = false
  /-- The charged rows can be added up. -/
  fits : PgFits (chargedRowsOf evs project since scope)

namespace Postgres

/-! ## Exact comparison and matcher -/

theorem member_storedRow (p : ℕ × LlmEvent) (key : String) :
    (storedRow p).member key = (p.2.metadata.get key).bind Jsonb.asText := by
  unfold EventRow.member
  rw [metadata_bind_get]

theorem member_eq_some_iff (p : ℕ × LlmEvent) (key v : String) :
    (storedRow p).member key = some v ↔
      p.2.metadata.getStr key = some v ∨
        (p.2.metadata.get key).any (Jsonb.printsAs v) = true := by
  rw [member_storedRow, Json.getStr_eq_some_iff]
  cases p.2.metadata.get key with
  | none => simp
  | some j => simp [Jsonb.asText_eq_some_iff]

/-- What prints as a text is no string. -/
theorem getStr_of_printsAs {metadata : Json} {key v : String}
    (h : (metadata.get key).any (Jsonb.printsAs v) = true) : metadata.getStr key = none := by
  cases hget : metadata.get key with
  | none => simp [Json.getStr, hget]
  | some j =>
    rw [hget] at h
    cases j <;> simp_all [Jsonb.printsAs, Json.getStr, Json.asStr]

theorem equalsValue_provider (v : String) (p : ℕ × LlmEvent) :
    equalsValue (.provider v) (storedRow p) = (LimitScope.provider v).matches p.2.scopeDims := rfl

theorem equalsValue_name (v : String) (p : ℕ × LlmEvent) :
    equalsValue (.name v) (storedRow p) = (LimitScope.name v).matches p.2.scopeDims := rfl

/-- A key or customer that the matcher accepts is equal. -/
theorem equalsValue_member {s : LimitScope} (hs : castsMetadata s = true) (p : ℕ × LlmEvent) :
    equalsValue s (storedRow p) = (s.matches p.2.scopeDims || s.misread p) := by
  rw [Bool.eq_iff_iff, Bool.or_eq_true]
  cases s with
  | apiKey v =>
    have h := member_eq_some_iff p "api_key_id" v
    simpa [equalsValue, LimitScope.matches, LimitScope.misread, LlmEvent.scopeDims,
      LlmEvent.apiKeyId] using h
  | customer v =>
    have h := member_eq_some_iff p "customer_id" v
    simpa [equalsValue, LimitScope.matches, LimitScope.misread, LlmEvent.scopeDims,
      LlmEvent.customerId] using h
  | _ => cases hs

/-- What is misread as a member is not matched. -/
theorem not_matches_of_misread {s : LimitScope} (hs : castsMetadata s = true) {p : ℕ × LlmEvent}
    (h : s.misread p = true) : s.matches p.2.scopeDims = false := by
  cases s with
  | apiKey v =>
    have hno := getStr_of_printsAs h
    simp [LimitScope.matches, LlmEvent.scopeDims, LlmEvent.apiKeyId, hno]
  | customer v =>
    have hno := getStr_of_printsAs h
    simp [LimitScope.matches, LlmEvent.scopeDims, LlmEvent.customerId, hno]
  | _ => cases hs

/-- A model that is equal is matched. -/
theorem equalsValue_model (v : String) (p : ℕ × LlmEvent) :
    equalsValue (.model v) (storedRow p) =
      ((LimitScope.model v).matches p.2.scopeDims && !(LimitScope.model v).misread p) := by
  have hrow : equalsValue (.model v) (storedRow p) = (p.2.model == v) := rfl
  have hmatch : (p.2.model == v) = true → (LimitScope.model v).matches p.2.scopeDims = true := by
    intro h
    simp only [LimitScope.matches, LlmEvent.scopeDims, Bool.or_eq_true]
    exact .inl h
  have hmis : (LimitScope.model v).misread p =
      ((LimitScope.model v).matches p.2.scopeDims && p.2.model != v) := rfl
  rw [hrow, hmis]
  cases heq : p.2.model == v with
  | true =>
    rw [hmatch heq]
    simp [bne, heq]
  | false => simp [bne, heq]

/-- **The two agree on a row exactly when it is not misread.** -/
theorem equalsValue_eq_matches_iff (s : LimitScope) (p : ℕ × LlmEvent) :
    equalsValue s (storedRow p) = s.matches p.2.scopeDims ↔ s.misread p = false := by
  by_cases hs : castsMetadata s = true
  · rw [equalsValue_member hs]
    constructor
    · intro h
      cases hmis : s.misread p with
      | false => rfl
      | true =>
        rw [not_matches_of_misread hs hmis, hmis] at h
        exact h
    · intro h
      rw [h, Bool.or_false]
  · cases s with
    | provider v => exact ⟨fun _ => rfl, fun _ => equalsValue_provider v p⟩
    | name v => exact ⟨fun _ => rfl, fun _ => equalsValue_name v p⟩
    | model v =>
      rw [equalsValue_model]
      constructor
      · intro h
        cases hmis : (LimitScope.model v).misread p with
        | false => rfl
        | true =>
          rw [hmis, Bool.not_true, Bool.and_false] at h
          have hunmatched : (LimitScope.model v).misread p =
              ((LimitScope.model v).matches p.2.scopeDims && p.2.model != v) := rfl
          rw [← h, Bool.false_and, hmis] at hunmatched
          exact hunmatched
      · intro h
        rw [h, Bool.not_false, Bool.and_true]
    | apiKey v => exact absurd rfl hs
    | customer v => exact absurd rfl hs

/-- For one scope, the exact comparison errs on one side only. -/
theorem equalsValue_one_sided (s : LimitScope) :
    (∀ p, s.matches p.2.scopeDims = true → equalsValue s (storedRow p) = true) ∨
      ∀ p, equalsValue s (storedRow p) = true → s.matches p.2.scopeDims = true := by
  cases s with
  | provider v => exact .inl fun p h => h
  | name v => exact .inl fun p h => h
  | model v =>
    right
    intro p h
    rw [equalsValue_model, Bool.and_eq_true] at h
    exact h.1
  | apiKey v =>
    left
    intro p h
    rw [equalsValue_member rfl, h, Bool.true_or]
  | customer v =>
    left
    intro p h
    rw [equalsValue_member rfl, h, Bool.true_or]

/-! ## Adding up -/

/-- Two selections of one size, one inside the other, are the same. -/
theorem filter_eq_of_length {α : Type*} {p q : α → Bool} {l : List α}
    (hsub : (∀ a, p a = true → q a = true) ∨ ∀ a, q a = true → p a = true)
    (hlen : (l.filter p).length = (l.filter q).length) : ∀ a ∈ l, p a = q a := by
  have hinside : ∀ {p q : α → Bool}, (∀ a, p a = true → q a = true) →
      (l.filter p).length = (l.filter q).length → ∀ a ∈ l, p a = q a := by
    intro p q hpq hlen a ha
    have hfilter : (l.filter q).filter p = l.filter p := by
      rw [List.filter_filter]
      apply List.filter_congr
      intro b _
      cases hp : p b with
      | false => rfl
      | true => exact (hpq b hp)
    rw [← hfilter] at hlen
    have hall := List.length_filter_eq_length_iff.1 hlen
    rw [Bool.eq_iff_iff]
    exact ⟨hpq a, fun hq => hall a (List.mem_filter.2 ⟨ha, hq⟩)⟩
  rcases hsub with hsub | hsub
  · exact hinside hsub hlen
  · intro a ha
    exact (hinside hsub hlen.symm a ha).symm

theorem ruleUsage_calls (evs : List (ℕ × LlmEvent)) (project : String) (since : Time)
    (scope : Option LimitScope) :
    (ruleUsage evs project since scope).calls =
      (evs.filter (chargedToRule project since scope)).length := by
  unfold ruleUsage usageOf
  induction evs.filter (chargedToRule project since scope) with
  | nil => rfl
  | cons p l ih =>
    have hone : (eventContribution p.2).calls = 1 := rfl
    rw [List.map_cons, List.sum_cons, Usage.add_calls, ih, hone, List.length_cons]
    push_cast
    exact add_comm _ _

/-- Charged rows that can be added up give the rule's usage. -/
theorem sum_chargedRowsOf {evs : List (ℕ × LlmEvent)} {project : String} {since : Time}
    {scope : Option LimitScope} (h : ∀ r ∈ chargedRowsOf evs project since scope, r.TokensFit) :
    ((chargedRowsOf evs project since scope).map EventRow.contribution).sum =
      ruleUsage evs project since scope := by
  unfold ruleUsage usageOf
  unfold chargedRowsOf at h ⊢
  rw [List.map_map]
  refine congrArg List.sum (List.map_congr_left ?_)
  intro p hp
  exact contribution_of_fit (h _ (List.mem_map_of_mem hp))

/-- The rows a scoped query selects, as events. -/
theorem hits_map_storedRow (evs : List (ℕ × LlmEvent)) (project : String) (since : Time)
    (s : LimitScope) :
    hits (evs.map storedRow) project since s =
      (evs.filter fun p => inWindow project since (storedRow p) &&
        equalsValue s (storedRow p)).map storedRow := by
  unfold hits
  rw [List.filter_map]
  rfl

theorem chargedToRule_some (project : String) (since : Time) (s : LimitScope) (p : ℕ × LlmEvent) :
    chargedToRule project since (some s) p =
      (inWindow project since (storedRow p) && s.matches p.2.scopeDims) := rfl

/-- The rows of the window are those a rule for the whole project is charged for. -/
theorem window_map_storedRow (evs : List (ℕ × LlmEvent)) (project : String) (since : Time) :
    (evs.map storedRow).filter (inWindow project since) = chargedRowsOf evs project since none := by
  unfold chargedRowsOf
  rw [List.filter_map]
  refine congrArg (List.map storedRow) (List.filter_congr ?_)
  intro p _
  exact (Bool.and_true _).symm

theorem usageInTx_none_iff {evs : List (ℕ × LlmEvent)} (hw : ∀ p ∈ evs, (storedRow p).Written)
    (project : String) (since : Time) :
    usageInTx (evs.map storedRow) project since none = .ok (ruleUsage evs project since none) ↔
      PgFits (chargedRowsOf evs project since none) := by
  have hrows : ∀ r ∈ chargedRowsOf evs project since none, r.Written := by
    intro r hr
    rcases List.mem_map.1 hr with ⟨p, hp, rfl⟩
    exact hw p (List.mem_filter.1 hp).1
  unfold usageInTx
  rw [window_map_storedRow, Traverse.mapError_eq_ok_iff, usageCols_eq_ok_iff hrows]
  constructor
  · intro h
    exact h.1
  · intro h
    exact ⟨h, (sum_chargedRowsOf h.tokens).symm⟩

theorem usageInTx_some_iff {evs : List (ℕ × LlmEvent)} (hw : ∀ p ∈ evs, (storedRow p).Written)
    (project : String) (since : Time) (s : LimitScope) :
    usageInTx (evs.map storedRow) project since (some s) =
        .ok (ruleUsage evs project since (some s)) ↔
      (∀ p ∈ evs, Comparable project since s (storedRow p)) ∧
        (∀ p ∈ evs, inWindow project since (storedRow p) = true → s.misread p = false) ∧
          PgFits (chargedRowsOf evs project since (some s)) := by
  have hrows : ∀ r ∈ evs.map storedRow, r.Written := by
    intro r hr
    rcases List.mem_map.1 hr with ⟨p, hp, rfl⟩
    exact hw p hp
  unfold usageInTx
  simp only
  rw [Traverse.mapError_eq_ok_iff, selectScoped_eq_ok_iff hrows, hits_map_storedRow,
    List.forall_mem_map]
  -- the events the query selects, against those the rule is charged for
  let equals : ℕ × LlmEvent → Bool := fun p =>
    inWindow project since (storedRow p) && equalsValue s (storedRow p)
  have hagree : (∀ p ∈ evs, chargedToRule project since (some s) p = equals p) ↔
      ∀ p ∈ evs, inWindow project since (storedRow p) = true → s.misread p = false := by
    refine forall₂_congr ?_
    intro p _
    simp only [equals, chargedToRule_some]
    cases hwin : inWindow project since (storedRow p) with
    | false => simp
    | true =>
      rw [Bool.true_and, Bool.true_and, eq_comm, equalsValue_eq_matches_iff]
      simp
  constructor
  · rintro ⟨⟨hcomp, hfits⟩, husage⟩
    -- both sides count as many calls, so they count the same rows
    have hcalls := congrArg Usage.calls husage
    rw [ruleUsage_calls, sum_contribution, List.length_map] at hcalls
    simp only at hcalls
    have hlen : (evs.filter (chargedToRule project since (some s))).length =
        (evs.filter equals).length := by
      exact_mod_cast hcalls
    have hsub : (∀ p, chargedToRule project since (some s) p = true → equals p = true) ∨
        ∀ p, equals p = true → chargedToRule project since (some s) p = true := by
      rcases equalsValue_one_sided s with hone | hone
      · left
        intro p h
        rcases Bool.and_eq_true_iff.1 h with ⟨hwin, hmatch⟩
        exact Bool.and_eq_true_iff.2 ⟨hwin, hone p hmatch⟩
      · right
        intro p h
        rcases Bool.and_eq_true_iff.1 h with ⟨hwin, hequals⟩
        exact Bool.and_eq_true_iff.2 ⟨hwin, hone p hequals⟩
    have hall := filter_eq_of_length hsub hlen
    have hsame : evs.filter (chargedToRule project since (some s)) = evs.filter equals :=
      List.filter_congr hall
    refine ⟨hcomp, hagree.1 hall, ?_⟩
    unfold chargedRowsOf
    rw [hsame]
    exact hfits
  · rintro ⟨hcomp, hspelled, hfits⟩
    have hsame : (evs.filter equals).map storedRow = chargedRowsOf evs project since (some s) := by
      unfold chargedRowsOf
      rw [List.filter_congr (hagree.2 hspelled)]
    refine ⟨⟨hcomp, ?_⟩, ?_⟩
    · change PgFits ((evs.filter equals).map storedRow)
      rw [hsame]
      exact hfits
    · change _ = (((evs.filter equals).map storedRow).map EventRow.contribution).sum
      rw [hsame]
      exact (sum_chargedRowsOf hfits.tokens).symm

/-- **The gate's number is right** exactly when no row of the window is misread and the rows can
be read. -/
theorem usageInTx_eq_iff {evs : List (ℕ × LlmEvent)} (hw : ∀ p ∈ evs, (storedRow p).Written)
    (project : String) (since : Time) (scope : Option LimitScope) :
    usageInTx (evs.map storedRow) project since scope = .ok (ruleUsage evs project since scope) ↔
      GateExact evs project since scope := by
  cases scope with
  | none =>
    rw [usageInTx_none_iff hw]
    constructor
    · intro h
      refine ⟨?_, ?_, h⟩
      · rintro s ⟨⟩
      · rintro s ⟨⟩
    · intro h
      exact h.fits
  | some s =>
    rw [usageInTx_some_iff hw]
    constructor
    · rintro ⟨hcomp, hspelled, hfits⟩
      refine ⟨?_, ?_, hfits⟩
      · rintro s' ⟨⟩
        exact hcomp
      · rintro s' ⟨⟩
        exact hspelled
    · intro h
      exact ⟨h.comparable s rfl, h.spelled s rfl, h.fits⟩

end Postgres

end LightTrack
