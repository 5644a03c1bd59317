import LightTrack.Api.Prepare
import LightTrack.Core.Limits

/-! # Key attribution

The key a call is charged to is carried in `metadata.api_key_id`.  The principal's key is
stamped there, and redaction passes it through; but metadata that is an array or a scalar
has no place for it, and a scrub that panics clears it.

* `attribution_iff` : exactly which prepared events carry the principal's key,
* `array_metadata_hides_key` : a keyed call that carries none.
-/

namespace LightTrack

section Attribution

variable {st : IngestConfig} {now : Time} {newId pid : String} {keyId : Option String}
  {persistence : Redaction} {ev p : LlmEvent}

/-- The key a prepared event is attributed to. -/
theorem prepareEvent_apiKeyId (h : prepareEvent st now newId pid keyId persistence ev = .ok p) :
    p.apiKeyId =
      if st.redact.Panics (arrive now newId pid keyId ev) persistence then none
      else if ev.metadata.canHold then keyId else none := by
  have hget := prepareEvent_get h isAccountingKey_apiKeyId (by decide +kernel) (by decide +kernel)
  rw [arrive_get_apiKeyId] at hget
  rw [LlmEvent.apiKeyId, Json.getStr, hget]
  split_ifs
  · rfl
  · cases keyId <;> rfl
  · rfl

/-- A rule scoped to a key matches the events attributed to it. -/
theorem matches_apiKey_iff {k : String} :
    (LimitScope.apiKey k).matches p.scopeDims = true ↔ p.apiKeyId = some k := by
  simp [LimitScope.matches, LlmEvent.scopeDims]

end Attribution

/-- **Key attribution.** A prepared event carries exactly the principal's key, and falls under
every rule scoped to it, if and only if no key is behind the request, or the metadata was an
object or absent and its scrub does not panic. -/
theorem attribution_iff {st : IngestConfig} {now : Time} {newId pid : String}
    {principal : Principal} {persistence : Redaction} {ev p : LlmEvent}
    (h : prepareEvent st now newId pid principal.keyId persistence ev = .ok p) :
    (p.apiKeyId = principal.keyId ∧
        ∀ k, principal.keyId = some k → (LimitScope.apiKey k).matches p.scopeDims = true) ↔
      principal.keyId = none ∨
        (ev.metadata.isObject = true ∨ ev.metadata.isNull = true) ∧
          ¬ st.redact.Panics (arrive now newId pid principal.keyId ev) persistence := by
  have hkey := prepareEvent_apiKeyId h
  have hhold : ev.metadata.canHold = true ↔
      ev.metadata.isObject = true ∨ ev.metadata.isNull = true := by
    unfold Json.canHold
    exact Bool.or_eq_true _ _ ▸ Iff.rfl
  rw [← hhold]
  constructor
  · rintro ⟨heq, -⟩
    by_cases hnone : principal.keyId = none
    · exact .inl hnone
    · right
      -- a key that is read back was stamped, and survived the scrub
      rw [hkey] at heq
      split_ifs at heq with hpanic hcan
      · exact absurd heq.symm hnone
      · exact ⟨hcan, hpanic⟩
      · exact absurd heq.symm hnone
  · intro hcase
    have heq : p.apiKeyId = principal.keyId := by
      rw [hkey]
      rcases hcase with hnone | ⟨hcan, hpanic⟩
      · rw [hnone, ite_self, ite_self]
      · rw [if_neg hpanic, if_pos hcan]
    exact ⟨heq, fun k hk => matches_apiKey_iff.2 (heq.trans hk)⟩

/-! ## A keyed call -/

/-- A service with the default policy that scrubs every project, on text no rule matches. -/
def sampleConfig : IngestConfig where
  policy := {}
  redact :=
    { mode := .all
      scrubber := { rules := [], rulesFingerprint := "0123456789ab", sha256Hex := fun _ => "" } }
  prices := {}

/-- A call with the given metadata. -/
def sampleCall (metadata : Json) : LlmEvent where
  id := "e1"
  projectId := "p"
  ts := 0
  receivedAt := 0
  provider := .new "openai"
  model := "gpt-4o"
  usage := { input := 10, output := 5 }
  costUsd := some 1
  metadata := metadata

/-- A call that names another key is charged to its own. -/
theorem attribution_iff_sample :
    ∃ p, prepareEvent sampleConfig 0 "" "p" (Principal.project "p" "k1" [.ingest]).keyId .none
        (sampleCall (.obj [("api_key_id", .str "k2")])) = .ok p ∧
      p.apiKeyId = some "k1" ∧ (LimitScope.apiKey "k1").matches p.scopeDims = true := by
  have hok : (prepareEvent sampleConfig 0 "" "p" (Principal.project "p" "k1" [.ingest]).keyId .none
      (sampleCall (.obj [("api_key_id", .str "k2")]))).isOk = true := by decide +kernel
  cases hp : prepareEvent sampleConfig 0 "" "p" (Principal.project "p" "k1" [.ingest]).keyId .none
      (sampleCall (.obj [("api_key_id", .str "k2")])) with
  | error e =>
    rw [hp] at hok
    cases hok
  | ok p =>
    have hattr := (attribution_iff hp).2 (.inr ⟨.inl rfl, by decide +kernel⟩)
    exact ⟨p, rfl, hattr.1, hattr.2 "k1" rfl⟩

/-- **An array hides the key.** The same call with an array for metadata is accepted, carries no
key, and no rule scoped to its key covers it. -/
theorem array_metadata_hides_key :
    (prepareEvent sampleConfig 0 "" "p" (Principal.project "p" "k1" [.ingest]).keyId .none
        (sampleCall (.arr []))).toOption.map (fun p =>
          (p.apiKeyId, (LimitScope.apiKey "k1").matches p.scopeDims)) = some (none, false) := by
  decide +kernel

end LightTrack
