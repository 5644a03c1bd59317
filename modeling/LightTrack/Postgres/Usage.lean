import LightTrack.Lib.Traverse
import LightTrack.Postgres.JsonbText
import LightTrack.Store.ScopeUsage

/-! # Rolling usage on Postgres

The aggregates of the SQLite store, in another dialect.  The metadata column is cast
to `jsonb` on every row an aggregate reads, and the cast raises; `bigint` sums raise
where they leave their range.

* `memberText_eq` : what `->>` reads from a stored row, and when it can,
* `usageCols_eq_ok_iff` : when an aggregate can be read, and as what,
* `selectScoped_eq_ok_iff` : the same for the rows of a scope.
-/

namespace LightTrack

/-- Why Postgres refuses a statement. -/
inductive PgError where
  | invalidJson
  | bigintOutOfRange
  | nulInText
  deriving DecidableEq

/-- The server's message. -/
def PgError.text : PgError → String
  | invalidJson => "error returned from database: unsupported Unicode escape sequence"
  | bigintOutOfRange => "error returned from database: bigint out of range"
  | nulInText => "error returned from database: invalid byte sequence for encoding \"UTF8\": 0x00"

/-- `pgerr`. -/
def pgerr (e : PgError) : StoreError := .other ("postgres: " ++ e.text)

namespace Postgres

/-! ## Columns -/

/-- `NULLIF(text, '')`. -/
def nullif (text : Option String) : Option String := text.filter fun s => s != ""

/-- `(NULLIF(metadata,'')::jsonb)->>'key'`. -/
def memberText (r : EventRow) (key : String) : Except PgError (Option String) :=
  match nullif (r.metadata.map Json.render) with
  | none => .ok none
  | some text =>
    match Jsonb.jsonbIn text with
    | none => .error .invalidJson
    | some v => .ok (Jsonb.arrow key v)

/-- `a + b` over BIGINT columns, and the cast of a sum to BIGINT. -/
def bigint (n : Int) : Except PgError Int := if InI64 n then .ok n else .error .bigintOutOfRange

/-- `scope_expr`: the value of one scope dimension for a row. -/
def scopeExpr (s : LimitScope) (r : EventRow) : Except PgError (Option String) :=
  match s with
  | .provider _ => .ok (some r.provider)
  | .model _ => .ok (some r.model)
  | .name _ => .ok r.name
  | .apiKey _ => memberText r "api_key_id"
  | .customer _ => memberText r "customer_id"

/-- The cost of a row the client priced itself: `FILTER` decides on every row. -/
def clientCost (r : EventRow) : Except PgError ℚ :=
  (memberText r "cost_source").map fun src =>
    if src = some "client" then r.costUsd.getD 0 else 0

/-- `USAGE_COLS` over a group of rows. -/
def usageCols (rows : List EventRow) : Except PgError Usage :=
  match rows.mapM fun r => bigint (r.inputTokens + r.outputTokens) with
  | .error e => .error e
  | .ok tokens =>
    match bigint tokens.sum with
    | .error e => .error e
    | .ok total =>
      match rows.mapM clientCost with
      | .error e => .error e
      | .ok client =>
        .ok
          { costUsd := (rows.map fun r => r.costUsd.getD 0).sum
            calls := rows.length
            tokens := total
            unpricedCalls := (rows.map fun r => if r.costUsd.isNone then 1 else 0).sum
            clientCostUsd := client.sum }

/-! ## Queries -/

/-- `usage_since`. -/
def usageSince (rows : List EventRow) (project : String) (since : Time) : Except StoreError Usage :=
  (usageCols (rows.filter (inWindow project since))).mapError pgerr

/-- `… AND scope_expr = $3`: the dimension is read on the rows of the window. -/
def scopeHit (project : String) (since : Time) (s : LimitScope) (r : EventRow) :
    Except PgError Bool :=
  if inWindow project since r then (scopeExpr s r).map fun v => v == some s.value else .ok false

/-- `SELECT USAGE_COLS … WHERE scope_expr = $3`. -/
def selectScoped (rows : List EventRow) (project : String) (since : Time) (s : LimitScope) :
    Except PgError Usage :=
  match Traverse.select (scopeHit project since s) rows with
  | .error e => .error e
  | .ok hits => usageCols hits

/-- `events::usage_since_scoped`: the pooled query of the dimensions that are compared exactly. -/
def usageSinceExact (rows : List EventRow) (project : String) (since : Time) (s : LimitScope) :
    Except StoreError Usage :=
  (selectScoped rows project since s).mapError pgerr

/-- `usage_in_tx`: rolling usage inside the admission transaction. Every dimension is compared
exactly, the model too. -/
def usageInTx (rows : List EventRow) (project : String) (since : Time) (scope : Option LimitScope) :
    Except StoreError Usage :=
  match scope with
  | none => (usageCols (rows.filter (inWindow project since))).mapError pgerr
  | some s => (selectScoped rows project since s).mapError pgerr

end Postgres

/-! ## Rows that were written -/

/-- The metadata is a value `serde_json` can hold. -/
def EventRow.Written (r : EventRow) : Prop := ∀ m ∈ r.metadata, m.written = true

/-- The cast of the metadata does not raise. -/
def EventRow.Castable (r : EventRow) : Prop := ∀ m ∈ r.metadata, m.nulFree = true

instance : DecidablePred EventRow.Written := fun r =>
  inferInstanceAs (Decidable (∀ m ∈ r.metadata, m.written = true))

instance : DecidablePred EventRow.Castable := fun r =>
  inferInstanceAs (Decidable (∀ m ∈ r.metadata, m.nulFree = true))

/-- A metadata member as text. -/
def EventRow.member (r : EventRow) (key : String) : Option String :=
  (r.metadata.bind (Json.get key)).bind Jsonb.asText

namespace Postgres

theorem render_ne_empty {j : Json} (h : j.written = true) : j.render ≠ "" := by
  rcases Jsonb.render_starts h with ⟨c, cs, htext, -⟩
  intro heq
  rw [heq] at htext
  cases htext

/-- **What `->>` reads from a stored row**: the member, unless the cast raises. -/
theorem memberText_eq {r : EventRow} (h : r.Written) (key : String) :
    memberText r key = if r.Castable then .ok (r.member key) else .error .invalidJson := by
  cases hm : r.metadata with
  | none =>
    have hcast : r.Castable := by
      intro m hmem
      rw [hm] at hmem
      cases hmem
    rw [if_pos hcast]
    unfold memberText EventRow.member
    rw [hm]
    rfl
  | some m =>
    have hw : m.written = true := h m hm
    have hcast : r.Castable ↔ m.nulFree = true := by
      unfold EventRow.Castable
      simp [hm]
    have htext : nullif (r.metadata.map Json.render) = some m.render := by
      simp [hm, nullif, render_ne_empty hw]
    unfold memberText EventRow.member
    rw [htext]
    simp only [Jsonb.jsonbIn_render hw, hm, Option.bind_some, if_congr hcast rfl rfl]
    by_cases hnul : m.nulFree = true
    · simp only [if_pos hnul, Jsonb.arrow_eq hw]
    · simp only [if_neg hnul]

theorem memberText_eq_ok_iff {r : EventRow} (h : r.Written) (key : String) (v : Option String) :
    memberText r key = .ok v ↔ r.Castable ∧ v = r.member key := by
  rw [memberText_eq h]
  by_cases hc : r.Castable
  · simp [hc, eq_comm]
  · simp [hc]

/-- The client's mark on a cost reads the same in both dialects. -/
theorem member_costSource_iff (r : EventRow) :
    r.member "cost_source" = some "client" ↔ r.isClientCost = true := by
  unfold EventRow.member EventRow.isClientCost
  rw [beq_iff_eq, jsonExtract_eq_text_iff]
  cases r.metadata.bind (Json.get "cost_source") with
  | none => simp
  | some j =>
    rw [Option.bind_some, Jsonb.asText_eq_some_iff, Jsonb.printsAs_client, Option.some.injEq]
    constructor
    · rintro (h | h)
      · exact .inl h
      · cases h
    · rintro (h | ⟨j', -, hcomp, hrender⟩)
      · exact .inl h
      · -- no array or object is written as `client`
        rcases render_isComposite hcomp with h | h <;> rw [hrender] at h <;> simp at h

theorem clientCost_eq_ok_iff {r : EventRow} (h : r.Written) (x : ℚ) :
    clientCost r = .ok x ↔
      r.Castable ∧ x = if r.isClientCost then r.costUsd.getD 0 else 0 := by
  have hmark : (if r.member "cost_source" = some "client" then r.costUsd.getD 0 else 0) =
      if r.isClientCost then r.costUsd.getD 0 else 0 :=
    if_congr (member_costSource_iff r) rfl rfl
  unfold clientCost
  rw [Traverse.map_eq_ok_iff, ← hmark]
  constructor
  · rintro ⟨v, hv, rfl⟩
    rcases (memberText_eq_ok_iff h _ _).1 hv with ⟨hc, rfl⟩
    exact ⟨hc, rfl⟩
  · rintro ⟨hc, rfl⟩
    exact ⟨_, (memberText_eq_ok_iff h _ _).2 ⟨hc, rfl⟩, rfl⟩

theorem bigint_eq_ok_iff (n m : Int) : bigint n = .ok m ↔ InI64 n ∧ m = n := by
  unfold bigint
  by_cases h : InI64 n
  · simp [h, eq_comm]
  · simp [h]

end Postgres

/-- When an aggregate over these rows can be read: their metadata is castable, each row's tokens
add up to a BIGINT, and so do all of them. -/
structure PgFits (rows : List EventRow) : Prop where
  castable : ∀ r ∈ rows, r.Castable
  tokens : ∀ r ∈ rows, r.TokensFit
  total : InI64 (tokenSums rows).sum

instance : DecidablePred PgFits := fun rows =>
  decidable_of_iff ((∀ r ∈ rows, r.Castable) ∧ (∀ r ∈ rows, r.TokensFit) ∧
      InI64 (tokenSums rows).sum)
    ⟨fun ⟨hc, ht, hs⟩ => ⟨hc, ht, hs⟩, fun h => ⟨h.castable, h.tokens, h.total⟩⟩

namespace Postgres

/-- An aggregate reads when the clients' costs do, the token sum of every row fits, and so does their
total. -/
theorem usageCols_eq_ok_iff_of_costs {rows : List EventRow} {readable : Prop} {costs : List ℚ}
    (hclient : ∀ xs, rows.mapM clientCost = .ok xs ↔ readable ∧ xs = costs) (u : Usage) :
    usageCols rows = .ok u ↔
      (readable ∧ (∀ r ∈ rows, r.TokensFit) ∧ InI64 (tokenSums rows).sum) ∧
        u = { (rows.map EventRow.contribution).sum with clientCostUsd := costs.sum } := by
  have htokens : ∀ ns, (rows.mapM fun r => bigint (r.inputTokens + r.outputTokens)) = .ok ns ↔
      (∀ r ∈ rows, r.TokensFit) ∧ ns = tokenSums rows :=
    fun ns => Traverse.mapM_eq_map_iff fun r n => bigint_eq_ok_iff _ n
  unfold usageCols
  rw [sum_contribution]
  -- each of the three readings either raises or gives the value its condition names
  cases ht : rows.mapM fun r => bigint (r.inputTokens + r.outputTokens) with
  | error e =>
    have hno : ¬ ∀ r ∈ rows, r.TokensFit := by
      intro hfit
      rw [(htokens _).2 ⟨hfit, rfl⟩] at ht
      cases ht
    simp [hno]
  | ok tokens =>
    rcases (htokens _).1 ht with ⟨hfit, rfl⟩
    simp only
    cases hs : bigint (tokenSums rows).sum with
    | error e =>
      have hno : ¬ InI64 (tokenSums rows).sum := by
        intro hsum
        rw [(bigint_eq_ok_iff _ _).2 ⟨hsum, rfl⟩] at hs
        cases hs
      simp [hno]
    | ok total =>
      rcases (bigint_eq_ok_iff _ _).1 hs with ⟨htotal, rfl⟩
      simp only
      cases hc : rows.mapM clientCost with
      | error e =>
        have hno : ¬ readable := by
          intro hall
          rw [(hclient _).2 ⟨hall, rfl⟩] at hc
          cases hc
        simp [hno]
      | ok client =>
        rcases (hclient _).1 hc with ⟨hall, rfl⟩
        simp only [Except.ok.injEq]
        constructor
        · intro heq
          exact ⟨⟨hall, hfit, htotal⟩, heq.symm⟩
        · intro hu
          exact hu.2.symm

/-- **An aggregate reads exactly when its rows fit**, and then it is the exact sum over them. -/
theorem usageCols_eq_ok_iff {rows : List EventRow} (h : ∀ r ∈ rows, r.Written) (u : Usage) :
    usageCols rows = .ok u ↔ PgFits rows ∧ u = (rows.map EventRow.contribution).sum := by
  have hclient := fun xs => Traverse.mapM_eq_map_iff_of_mem (P := EventRow.Castable)
    (g := fun r => if r.isClientCost then r.costUsd.getD 0 else 0)
    (fun r hr x => clientCost_eq_ok_iff (h r hr) x) (m := xs)
  have hfits : ((∀ r ∈ rows, r.Castable) ∧ (∀ r ∈ rows, r.TokensFit) ∧
      InI64 (tokenSums rows).sum) ↔ PgFits rows :=
    ⟨fun ⟨hcast, hfit, htotal⟩ => ⟨hcast, hfit, htotal⟩,
      fun hfits => ⟨hfits.castable, hfits.tokens, hfits.total⟩⟩
  rw [usageCols_eq_ok_iff_of_costs hclient, hfits, sum_contribution]

/-- Whether the dimension of a row equals the scope's value, where it can be read. -/
def equalsValue (s : LimitScope) (r : EventRow) : Bool :=
  match s with
  | .provider v => r.provider == v
  | .model v => r.model == v
  | .name v => r.name == some v
  | .apiKey v => r.member "api_key_id" == some v
  | .customer v => r.member "customer_id" == some v

/-- Whether reading the dimension casts the metadata. -/
def castsMetadata : LimitScope → Bool
  | .apiKey _ | .customer _ => true
  | _ => false

/-- The condition under which the dimension of a row can be compared. -/
def Comparable (project : String) (since : Time) (s : LimitScope) (r : EventRow) : Prop :=
  inWindow project since r = true → castsMetadata s = true → r.Castable

theorem scopeHit_eq_ok_iff {project : String} {since : Time} {s : LimitScope} {r : EventRow}
    (h : r.Written) (b : Bool) :
    scopeHit project since s r = .ok b ↔
      Comparable project since s r ∧ b = (inWindow project since r && equalsValue s r) := by
  have hmember : ∀ key v, ((memberText r key).map fun x => x == some v) = .ok b ↔
      r.Castable ∧ b = (r.member key == some v) := by
    intro key v
    rw [Traverse.map_eq_ok_iff]
    constructor
    · rintro ⟨x, hx, rfl⟩
      rcases (memberText_eq_ok_iff h _ _).1 hx with ⟨hc, rfl⟩
      exact ⟨hc, rfl⟩
    · rintro ⟨hc, rfl⟩
      exact ⟨_, (memberText_eq_ok_iff h _ _).2 ⟨hc, rfl⟩, rfl⟩
  unfold scopeHit Comparable
  cases hwin : inWindow project since r with
  | false =>
    rw [if_neg Bool.false_ne_true, Bool.false_and, Except.ok.injEq]
    exact ⟨fun hb => ⟨fun hcon => absurd hcon Bool.false_ne_true, hb.symm⟩, fun hb => hb.2.symm⟩
  | true =>
    rw [if_pos rfl, Bool.true_and]
    cases s with
    | provider v => simp [scopeExpr, Except.map, castsMetadata, equalsValue, LimitScope.value, eq_comm]
    | model v => simp [scopeExpr, Except.map, castsMetadata, equalsValue, LimitScope.value, eq_comm]
    | name v => simp [scopeExpr, Except.map, castsMetadata, equalsValue, LimitScope.value, eq_comm]
    | apiKey v =>
      refine (hmember "api_key_id" v).trans ?_
      simp [castsMetadata, equalsValue]
    | customer v =>
      refine (hmember "customer_id" v).trans ?_
      simp [castsMetadata, equalsValue]

/-- The rows a scoped query selects. -/
def hits (rows : List EventRow) (project : String) (since : Time) (s : LimitScope) :
    List EventRow :=
  rows.filter fun r => inWindow project since r && equalsValue s r

/-- **What a scoped query reads**: the sum over the rows whose dimension equals the value, where
every row of the window can be compared and the selected ones fit. -/
theorem selectScoped_eq_ok_iff {rows : List EventRow} (h : ∀ r ∈ rows, r.Written)
    (project : String) (since : Time) (s : LimitScope) (u : Usage) :
    selectScoped rows project since s = .ok u ↔
      ((∀ r ∈ rows, Comparable project since s r) ∧ PgFits (hits rows project since s)) ∧
        u = ((hits rows project since s).map EventRow.contribution).sum := by
  have hselect := fun as => Traverse.select_eq_ok_iff
    (P := Comparable project since s) (k := fun r => inWindow project since r && equalsValue s r)
    (l := rows) (fun r hr b => scopeHit_eq_ok_iff (h r hr) b) (m := as)
  have hhits : ∀ r ∈ hits rows project since s, r.Written :=
    fun r hr => h r (List.mem_filter.1 hr).1
  unfold selectScoped
  cases hsel : Traverse.select (scopeHit project since s) rows with
  | error e =>
    have hno : ¬ ∀ r ∈ rows, Comparable project since s r := by
      intro hall
      rw [(hselect _).2 ⟨hall, rfl⟩] at hsel
      cases hsel
    simp [hno]
  | ok as =>
    rcases (hselect _).1 hsel with ⟨hall, rfl⟩
    refine (usageCols_eq_ok_iff hhits u).trans ?_
    constructor
    · rintro ⟨hfits, husage⟩
      exact ⟨⟨hall, hfits⟩, husage⟩
    · rintro ⟨⟨-, hfits⟩, husage⟩
      exact ⟨hfits, husage⟩

end Postgres

end LightTrack
