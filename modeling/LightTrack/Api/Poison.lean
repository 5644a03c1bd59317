import LightTrack.Api.Contribution
import LightTrack.Postgres.NoPoison
import LightTrack.Store.NoPoison

/-! # Accepted events that cannot be loaded

The validation policy looks at no metadata and puts no bound on token counters, so what the
door lets through need not be loadable.

* `prepared_loadable_iff` : which accepted events are,
* `numeric_customer_poisons` : one that is not, and what it does to another project.
-/

namespace LightTrack

/-- Whether `json_extract` of this member is a text or NULL. -/
def readsAsText : Option Json → Bool
  | some (.bool _) | some (.num _) => false
  | _ => true

theorem jsonExtract_isTextual_iff {metadata : Option Json} {key : String} :
    (jsonExtract metadata key).IsTextual ↔ readsAsText (metadata.bind (Json.get key)) = true := by
  unfold jsonExtract
  cases metadata.bind (Json.get key) with
  | none => simp [readsAsText, SqlValue.IsTextual]
  | some j =>
    cases j with
    | num n =>
      cases n with
      | int n =>
        simp only [readsAsText, Bool.false_eq_true, iff_false]
        split_ifs <;> simp [SqlValue.IsTextual]
      | float text => simp [readsAsText, SqlValue.IsTextual]
    | _ => simp [readsAsText, SqlValue.IsTextual]

/-- An event is loadable when its token counters add up and its members read as text. -/
theorem loadable_iff {ev : LlmEvent} :
    ev.Loadable ↔ (EventRow.ofEvent 0 ev).TokensFit ∧
      readsAsText (ev.metadata.get "cost_source") = true ∧
      readsAsText (ev.metadata.get "api_key_id") = true ∧
      readsAsText (ev.metadata.get "customer_id") = true := by
  have hmember : ∀ key, (jsonExtract (EventRow.ofEvent 0 ev).metadata key).IsTextual ↔
      readsAsText (ev.metadata.get key) = true := fun key => by
    rw [jsonExtract_isTextual_iff]
    exact metadata_bind_get (0, ev) key ▸ Iff.rfl
  rw [← hmember, ← hmember, ← hmember]
  exact ⟨fun h => ⟨h.tokens, h.costSource, h.apiKeyId, h.customerId⟩,
    fun ⟨ht, hs, hk, hc⟩ => ⟨ht, hs, hk, hc⟩⟩

section Prepared

variable {st : IngestConfig} {now : Time} {newId pid : String} {keyId : Option String}
  {persistence : Redaction} {ev p : LlmEvent}

/-- A stamped event has an object for metadata. -/
theorem redacted_isObject (st : IngestConfig) (now : Time) (newId pid : String)
    (keyId : Option String) (persistence : Redaction) (ev : LlmEvent) :
    (redacted st now newId pid keyId persistence ev).metadata.isObject = true := by
  have hstamp : ∀ (sc : Scrubber) (x : LlmEvent) (scrub : Bool) (n : ℕ),
      (writeStamp sc x persistence scrub n).metadata.isObject = true := by
    intro sc x scrub n
    unfold writeStamp
    simp only
    split <;> rfl
  unfold redacted Redactor.applyClass Redactor.redactEvent
  simp only
  split_ifs
  · exact hstamp _ _ _ _
  · split <;> exact hstamp _ _ _ _

/-- The cost source is the server's once there is a cost. -/
theorem prepareEvent_costSource (h : prepareEvent st now newId pid keyId persistence ev = .ok p)
    (hcost : p.costUsd.isSome = true) :
    p.metadata.get "cost_source" = some (.str (if ev.costUsd.isSome then "client" else "book")) := by
  rcases prepareEvent_eq_ok_iff.1 h with ⟨-, hp⟩
  have hredact := redacted_sameCall st now newId pid keyId persistence ev
  have hpriced := priced_sameCall st.prices (redacted st now newId pid keyId persistence ev)
  rw [← hp] at hpriced
  have hsome : ((redacted st now newId pid keyId persistence ev).ensureCost st.prices).costUsd.isNone =
      false := by
    rw [← hpriced.costUsd]
    cases hc : p.costUsd with
    | none =>
      rw [hc] at hcost
      cases hcost
    | some c => rfl
  have hclient : (redacted st now newId pid keyId persistence ev).costUsd = ev.costUsd :=
    hredact.costUsd
  rw [hp, normalizeFailureClass_get_of_ne _ (by decide +kernel), priceEvent, markCostSource,
    if_neg (by simp [hsome]), metadataSet_get_self, ensureCost_metadata, hclient]
  refine if_pos ?_
  unfold Json.canHold
  rw [redacted_isObject, Bool.true_or]

/-- Without a cost, the member under `cost_source` is the client's own. -/
theorem prepareEvent_costSource_unpriced
    (h : prepareEvent st now newId pid keyId persistence ev = .ok p) (hcost : p.costUsd = none) :
    p.metadata.get "cost_source" =
      if st.redact.Panics (arrive now newId pid keyId ev) persistence then none
      else ev.metadata.get "cost_source" := by
  rcases prepareEvent_eq_ok_iff.1 h with ⟨-, hp⟩
  have hpriced := priced_sameCall st.prices (redacted st now newId pid keyId persistence ev)
  rw [← hp] at hpriced
  have hnone : ((redacted st now newId pid keyId persistence ev).ensureCost st.prices).costUsd.isNone =
      true := by
    rw [← hpriced.costUsd, hcost]
    rfl
  rw [hp, normalizeFailureClass_get_of_ne _ (by decide +kernel), priceEvent, markCostSource,
    if_pos hnone, ensureCost_metadata, redacted,
    st.redact.applyClass_get _ persistence isAccountingKey_costSource,
    arrive_get_of_ne _ _ _ _ _ (by decide +kernel)]

/-- **Which accepted events can be loaded.** The token counters must add up to an `i64`; the
customer id must read as text, and so must the cost source of an event that is left unpriced,
unless the scrub panics and clears them. -/
theorem prepared_loadable_iff (h : prepareEvent st now newId pid keyId persistence ev = .ok p) :
    p.Loadable ↔ InI64 (asI64 ev.usage.input + asI64 ev.usage.output) ∧
      (¬ st.redact.Panics (arrive now newId pid keyId ev) persistence →
        readsAsText (ev.metadata.get "customer_id") = true ∧
          (p.costUsd = none → readsAsText (ev.metadata.get "cost_source") = true)) := by
  have husage := (prepareEvent_call h).2.2.2.2.2.2
  -- the door keeps the counters
  have hfit : (EventRow.ofEvent 0 p).TokensFit ↔
      InI64 (asI64 ev.usage.input + asI64 ev.usage.output) := by
    have hin := inputTokens_storedRow (0, p)
    have hout := outputTokens_storedRow (0, p)
    unfold storedRow at hin hout
    unfold EventRow.TokensFit
    rw [hin, hout, ← husage]
  -- the key id is written by the server, or it is absent
  have hkey : readsAsText (p.metadata.get "api_key_id") = true := by
    rw [prepareEvent_get h isAccountingKey_apiKeyId (by decide +kernel) (by decide +kernel),
      arrive_get_apiKeyId]
    split_ifs
    · rfl
    · cases keyId <;> rfl
    · rfl
  have hcustomer : p.metadata.get "customer_id" =
      if st.redact.Panics (arrive now newId pid keyId ev) persistence then none
      else ev.metadata.get "customer_id" := by
    rw [prepareEvent_get h isAccountingKey_customerId (by decide +kernel) (by decide +kernel),
      arrive_get_of_ne _ _ _ _ _ (by decide +kernel)]
  -- a priced event has its cost source written by the server
  have hsource : readsAsText (p.metadata.get "cost_source") = true ↔
      (¬ st.redact.Panics (arrive now newId pid keyId ev) persistence → p.costUsd = none →
        readsAsText (ev.metadata.get "cost_source") = true) := by
    cases hcost : p.costUsd with
    | some c =>
      rw [prepareEvent_costSource h (by rw [hcost]; rfl)]
      simp [readsAsText]
    | none =>
      rw [prepareEvent_costSource_unpriced h hcost]
      split_ifs with hpanic
      · simp [readsAsText, hpanic]
      · simp [hpanic]
  rw [loadable_iff, hfit, hsource, hcustomer]
  by_cases hpanic : st.redact.Panics (arrive now newId pid keyId ev) persistence
  · have hnone : readsAsText none = true := rfl
    simp [hpanic, hkey, hnone]
  · simp only [hpanic, hkey, if_false, not_false_eq_true, true_and, forall_const]
    exact and_congr_right fun _ => and_comm

end Prepared

/-- **A numeric customer id poisons the ledger.** The door accepts a call of project `a` whose
metadata names the customer by a number. Once it is stored, every question to the cache and every
admission check of project `p`, which has a rule, is an error. -/
theorem numeric_customer_poisons :
    ((prepareEvent sampleConfig 0 "" "a" none .none
        { sampleCall (.obj [("customer_id", .num (.int 42))]) with id := "e0" }).toOption.map fun bad =>
      let s := (watchedStore.state.insertEventChecked 0 bad).2
      (s.events.rows.length, (s.askUsage "p" (.day, none) 1).1.toOption.isSome,
        (s.insertEventChecked 1 sampleEvent).1.toOption.isSome, s.events.hasId sampleEvent.id)) =
      some (1, false, false, false) := by
  decide +kernel

/-! ## Accepted events that Postgres cannot read

Nothing between the door and the store looks for U+0000 in the metadata or adds up the token
counters, so what is accepted need not be readable once it is stored.

* `castable_ofEvent_iff` : which events leave a row that can be cast,
* `pg_no_poison_sample` : a run that stays readable,
* `nul_metadata_poisons` : accepted events that stop their project.
-/

/-- The row of an event can be cast exactly when no text in its metadata holds U+0000. -/
theorem castable_ofEvent_iff (rowid : ℕ) (ev : LlmEvent) :
    (EventRow.ofEvent rowid ev).Castable ↔ ev.metadata.nulFree = true := by
  unfold EventRow.Castable EventRow.ofEvent
  cases hnull : ev.metadata.isNull with
  | true =>
    have hmeta : ev.metadata = .null := by
      cases hm : ev.metadata <;> rw [hm] at hnull <;> first | rfl | cases hnull
    simp [hmeta, Json.nulFree]
  | false => simp

/-- A fresh store whose project `p` only watches its daily spend. -/
def watchedPg : Sys.Timed Time PgStore where
  clock := 0
  state := { events := .empty, limits := watchedStore.state.limits, revenue := [] }

/-- What is left of project `p` once it has stored an accepted call: the rows, and whether its
usage, its rollup and its next admission can be answered. -/
def aftermath (call : LlmEvent) : Option (ℕ × Bool × Bool × Bool) :=
  (prepareEvent sampleConfig 0 "" "p" none .none call).toOption.map fun ev =>
    let s := (watchedPg.state.insertEventChecked 0 ev).2
    (s.events.rows.length, (Postgres.usageSince s.events.rows "p" 0).toOption.isSome,
      (Postgres.rollup s.events.rows (foldQuery "p" 0 none)).toOption.isSome,
      (s.insertEventChecked 1 { sampleEvent with id := "e2" }).1.toOption.isSome)

end LightTrack
