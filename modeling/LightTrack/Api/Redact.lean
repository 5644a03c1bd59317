import LightTrack.Core.Event
import Mathlib.Algebra.Order.Ring.Nat

/-! # Redaction on ingest

Two layers, in order: the project's persistence policy on the captured payloads, then the
scrub of every client-supplied text.  The scrub walks `metadata` too, past the accounting
keys, and the stamp that says what was done is written last.

The regular expressions and the digest are libraries; `Scrubber` is what the code relies on
of them.  A rule that panics is `none`: the walk is then abandoned and the payloads are
discarded.

* `applyClass_sameCall` : redaction never touches what identifies or accounts for a call,
* `applyClass_get` : an accounting key reads back as it went in, unless the scrub panics.
-/

namespace LightTrack

/-- A project's persistence policy. -/
inductive Redaction where
  | none
  | hash
  | drop
  deriving DecidableEq

/-- The policy on the wire. -/
def Redaction.asStr : Redaction → String
  | .none => "none"
  | .hash => "hash"
  | .drop => "drop"

/-- `REDACTION_KEY`. -/
def REDACTION_KEY : String := "redaction"

/-- What was done to a row before it was stored. -/
structure RedactionStamp where
  policy : Redaction
  scrub : Bool
  /-- A `u32`. -/
  spans : ℕ
  rules : String

/-- The stamp as JSON. -/
def RedactionStamp.toJson (s : RedactionStamp) : Json :=
  .obj [("policy", .str s.policy.asStr), ("scrub", .bool s.scrub), ("spans", .num (.int s.spans)),
    ("rules", .str s.rules)]

/-! ## The scrubber -/

/-- One rule: how often its pattern occurs, and the text with every occurrence replaced. -/
structure PiiRule where
  count : String → Option ℕ
  replaceAll : String → String

/-- The rule set, its fingerprint, and SHA-256. -/
structure Scrubber where
  rules : List PiiRule
  rulesFingerprint : String
  sha256Hex : String → String

namespace Scrubber

variable (sc : Scrubber)

/-- `lighttrack_anon::scrub`: every rule in order over what the rules before it left. -/
def scrub (text : String) : Option (String × ℕ) :=
  sc.rules.foldlM (fun (out, redactions) rule => do
    let count ← rule.count out
    return if 0 < count then (rule.replaceAll out, redactions + count) else (out, redactions))
    (text, 0)

/-- `scrub_string`. -/
def scrubString (s : String) : Option (String × ℕ) := do
  let (text, redactions) ← sc.scrub s
  return (if 0 < redactions then text else s, redactions)

end Scrubber

/-! ## The capped walk -/

/-- `MAX_DEPTH`. -/
def MAX_DEPTH : ℕ := 12

/-- `MAX_BREADTH`. -/
def MAX_BREADTH : ℕ := 512

/-- `MAX_STRING_BYTES`. -/
def MAX_STRING_BYTES : ℕ := 32 * 1024

/-- `MAX_NODES`. -/
def MAX_NODES : ℕ := 20000

/-- The marker left where a value was not inspected. -/
def unscanned (cap : String) : Json := .str ("<UNSCANNED: " ++ cap ++ ">")

/-- What a walk has left, and what it has done. -/
structure Walk where
  nodesLeft : ℕ
  redactions : ℕ
  capped : ℕ

/-- The longest prefix of whole characters that fits in `n` bytes. -/
def takeBytes : ℕ → List Char → List Char
  | _, [] => []
  | n, c :: cs => if c.utf8Size ≤ n then c :: takeBytes (n - c.utf8Size) cs else []

/-- Thread a walk through the elements of a list. -/
def walkEach {α : Type} (f : α → Walk → Option (α × Walk)) : List α → Walk → Option (List α × Walk)
  | [], w => some ([], w)
  | x :: xs, w => do
    let (x, w) ← f x w
    let (xs, w) ← walkEach f xs w
    return (x :: xs, w)

namespace Scrubber

variable (sc : Scrubber)

/-- A string leaf: a long one is inspected up to the cap and its tail dropped. -/
def walkString (s : String) (w : Walk) : Option (String × Walk) :=
  if MAX_STRING_BYTES < s.utf8ByteSize then do
    let head := String.ofList (takeBytes MAX_STRING_BYTES s.toList)
    let shed := s.utf8ByteSize - head.utf8ByteSize
    let (text, n) ← sc.scrubString head
    return (text ++ "<UNSCANNED: string, " ++ toString shed ++ " bytes dropped>",
      { w with redactions := w.redactions + n, capped := w.capped + 1 })
  else do
    let (text, n) ← sc.scrubString s
    return (text, { w with redactions := w.redactions + n })

/-- `walk`, with the levels that are left instead of the depth. -/
def walk : ℕ → Json → Walk → Option (Json × Walk)
  | 0, _, w => some (unscanned "depth", { w with capped := w.capped + 1 })
  | levels + 1, v, w =>
    if w.nodesLeft = 0 then some (unscanned "node-budget", { w with capped := w.capped + 1 })
    else
      let w := { w with nodesLeft := w.nodesLeft - 1 }
      match v with
      | .str s => do
        let (s, w) ← sc.walkString s w
        return (.str s, w)
      | .arr xs => do
        let shed := xs.length - MAX_BREADTH
        let (xs, w) :=
          if MAX_BREADTH < xs.length then
            (xs.take MAX_BREADTH ++ [unscanned ("breadth, " ++ toString shed ++ " entries dropped")],
              { w with capped := w.capped + 1 })
          else (xs, w)
        let (xs, w) ← walkEach (walk levels) xs w
        return (.arr xs, w)
      | .obj fields => do
        let shed := fields.length - MAX_BREADTH
        let (fields, w) :=
          if MAX_BREADTH < fields.length then
            (Json.insertKey "<UNSCANNED>" (unscanned ("breadth, " ++ toString shed ++ " keys dropped"))
              (fields.take MAX_BREADTH), { w with capped := w.capped + 1 })
          else (fields, w)
        let (fields, w) ← walkEach (fun kv w => do
          let (v, w) ← walk levels kv.2 w
          return ((kv.1, v), w)) fields w
        return (.obj fields, w)
      -- no other value carries text
      | v => some (v, w)

/-- `scrub_value_capped`: the value, the redactions and the drops. -/
def scrubValueCapped (v : Json) : Option (Json × ℕ × ℕ) := do
  let (v, w) ← sc.walk MAX_DEPTH v ⟨MAX_NODES, 0, 0⟩
  return (v, w.redactions, w.capped)

end Scrubber

/-! ## The surfaces of an event -/

/-- `METADATA_PASSTHROUGH`: the keys the scrub leaves alone. -/
def METADATA_PASSTHROUGH : List String :=
  ["api_key_id", "customer_id", "product_id", "cost_source", "pricing_mode", "failure_class",
    "prompt_sha256", REDACTION_KEY]

/-- One surface of an event, scrubbed, with the redactions made. -/
abbrev Surface := LlmEvent → Option (LlmEvent × ℕ)

namespace Scrubber

variable (sc : Scrubber)

/-- A captured payload; a persistence policy leaves nothing to scrub. -/
def scrubPayload (persistence : Redaction) (payload : LlmEvent → Option Json)
    (set : LlmEvent → Json → LlmEvent) : Surface := fun ev =>
  match persistence, payload ev with
  | .none, some v => do
    let (v, n, _) ← sc.scrubValueCapped v
    return (set ev v, n)
  | _, _ => some (ev, 0)

/-- An optional text. -/
def scrubField (field : LlmEvent → Option String) (set : LlmEvent → String → LlmEvent) :
    Surface := fun ev =>
  match field ev with
  | some s => do
    let (s, n) ← sc.scrubString s
    return (set ev s, n)
  | none => some (ev, 0)

/-- The tags. -/
def scrubTags : Surface := fun ev => do
  let tags ← ev.tags.mapM sc.scrubString
  return ({ ev with tags := tags.map Prod.fst }, (tags.map Prod.snd).sum)

/-- One member of a metadata object. -/
def scrubMember (key : String) (value : Json) : Option (Json × ℕ) :=
  if key ∈ METADATA_PASSTHROUGH then some (value, 0)
  else do
    let (value, n, _) ← sc.scrubValueCapped value
    return (value, n)

/-- The members of a metadata object. -/
def scrubMembers : List (String × Json) → Option (List (String × Json) × ℕ)
  | [] => some ([], 0)
  | (key, value) :: fields => do
    let (value, n) ← sc.scrubMember key value
    let (fields, m) ← scrubMembers fields
    return ((key, value) :: fields, n + m)

/-- The metadata. -/
def scrubMetadata : Surface := fun ev =>
  match ev.metadata with
  | .obj fields => do
    let (fields, n) ← sc.scrubMembers fields
    return ({ ev with metadata := .obj fields }, n)
  | .null => some (ev, 0)
  | v => do
    let (v, n, _) ← sc.scrubValueCapped v
    return ({ ev with metadata := v }, n)

/-- The surfaces, in the order they are scrubbed. -/
def surfaces (persistence : Redaction) : List Surface :=
  [sc.scrubPayload persistence LlmEvent.input fun ev v => { ev with input := some v },
    sc.scrubPayload persistence LlmEvent.output fun ev v => { ev with output := some v },
    sc.scrubField LlmEvent.error fun ev s => { ev with error := some s },
    sc.scrubTags,
    sc.scrubField LlmEvent.name fun ev s => { ev with name := some s },
    sc.scrubField LlmEvent.source fun ev s => { ev with source := some s },
    sc.scrubMetadata]

end Scrubber

/-- Scrub one surface after another. A panic leaves what the surfaces before it became. -/
def scrubEach : List Surface → LlmEvent → LlmEvent × Option ℕ
  | [], ev => (ev, some 0)
  | surface :: rest, ev =>
    match surface ev with
    | none => (ev, none)
    | some (ev, n) =>
      let (ev, total) := scrubEach rest ev
      (ev, total.map (n + ·))

/-- `scrub_all`. -/
def Scrubber.scrubAll (sc : Scrubber) (ev : LlmEvent) (persistence : Redaction) :
    LlmEvent × Option ℕ :=
  scrubEach (sc.surfaces persistence) ev

/-! ## Stamps and policies -/

/-- `strip_client_stamp`. -/
def stripClientStamp (ev : LlmEvent) : LlmEvent :=
  match ev.metadata with
  | .obj fields => { ev with metadata := .obj (Json.removeKey REDACTION_KEY fields) }
  | _ => ev

/-- `write_stamp`: metadata that is no object is kept under `value`. -/
def writeStamp (sc : Scrubber) (ev : LlmEvent) (policy : Redaction) (scrub : Bool) (spans : ℕ) :
    LlmEvent :=
  let value := RedactionStamp.toJson
    { policy, scrub, spans := spans % 2 ^ 32, rules := if scrub then sc.rulesFingerprint else "" }
  match ev.metadata with
  | .obj fields => { ev with metadata := .obj (Json.insertKey REDACTION_KEY value fields) }
  | .null => { ev with metadata := .obj [(REDACTION_KEY, value)] }
  | other => { ev with metadata := .obj [("value", other), (REDACTION_KEY, value)] }

/-- Which projects are scrubbed. -/
inductive RedactMode where
  | off
  | all
  | projects (set : List String)
  deriving DecidableEq

/-- The redactor. -/
structure Redactor where
  mode : RedactMode
  scrubber : Scrubber

/-- `Redactor::from_raw`: an unset or blank setting scrubs every project. -/
def RedactMode.fromRaw (raw : Option String) : RedactMode :=
  let t := strTrim (raw.getD "")
  if t == "" then all
  else if toAsciiLowercase t == "off" || t == "0" then off
  else if toAsciiLowercase t == "all" || t == "*" || t == "1" then all
  else projects (((t.toList.splitOn ',').map fun s => strTrim (String.ofList s)).filter (· != ""))

example : RedactMode.fromRaw (some " p1 ,p2,") = .projects ["p1", "p2"] := by
  decide +kernel

/-- `apply_policy`. -/
def applyPolicy (sc : Scrubber) (ev : LlmEvent) (policy : Redaction) : LlmEvent :=
  match policy with
  | .none => ev
  | .hash =>
    let digest := fun v : Json => Json.obj [("sha256", .str (sc.sha256Hex v.render))]
    { ev with input := ev.input.map digest, output := ev.output.map digest }
  | .drop => { ev with input := none, output := none }

namespace Redactor

/-- `Redactor::enabled_for`. -/
def enabledFor (r : Redactor) (project : String) : Bool :=
  match r.mode with
  | .off => false
  | .all => true
  | .projects set => decide (project ∈ set)

/-- The payload of an event whose scrub failed. -/
def discarded : Json := .str "<REDACTION FAILED: payload discarded>"

/-- `Redactor::redact_event`. -/
def redactEvent (r : Redactor) (ev : LlmEvent) (persistence : Redaction) : LlmEvent × ℕ :=
  let ev := stripClientStamp ev
  if !r.enabledFor ev.projectId then (writeStamp r.scrubber ev persistence false 0, 0)
  else
    match r.scrubber.scrubAll ev persistence with
    | (ev, some n) => (writeStamp r.scrubber ev persistence true n, n)
    | (ev, none) =>
      -- the failed scrub never falls back to what the client sent
      (writeStamp r.scrubber
        { ev with
          input := some discarded
          output := some discarded
          error := some "<REDACTION FAILED>"
          tags := []
          metadata := .null } persistence true 0, 0)

/-- `apply_class`. -/
def applyClass (r : Redactor) (ev : LlmEvent) (policy : Redaction) : LlmEvent × ℕ :=
  r.redactEvent (applyPolicy r.scrubber ev policy) policy

/-- The scrub of this event panics. -/
def Panics (r : Redactor) (ev : LlmEvent) (policy : Redaction) : Prop :=
  r.enabledFor ev.projectId = true ∧
    (r.scrubber.scrubAll (stripClientStamp (applyPolicy r.scrubber ev policy)) policy).2 = none

instance (r : Redactor) (ev : LlmEvent) (policy : Redaction) : Decidable (r.Panics ev policy) :=
  inferInstanceAs (Decidable (_ ∧ _))

end Redactor

/-! ## What redaction keeps -/

/-- Two records of one call: what identifies it and what it is charged for agree. -/
structure LlmEvent.SameCall (ev ev' : LlmEvent) : Prop where
  id : ev'.id = ev.id
  projectId : ev'.projectId = ev.projectId
  ts : ev'.ts = ev.ts
  receivedAt : ev'.receivedAt = ev.receivedAt
  provider : ev'.provider = ev.provider
  model : ev'.model = ev.model
  usage : ev'.usage = ev.usage
  costUsd : ev'.costUsd = ev.costUsd
  status : ev'.status = ev.status

namespace LlmEvent.SameCall

variable {ev ev' ev'' : LlmEvent}

theorem refl (ev : LlmEvent) : ev.SameCall ev := ⟨rfl, rfl, rfl, rfl, rfl, rfl, rfl, rfl, rfl⟩

theorem trans (h : ev.SameCall ev') (h' : ev'.SameCall ev'') : ev.SameCall ev'' where
  id := h'.id.trans h.id
  projectId := h'.projectId.trans h.projectId
  ts := h'.ts.trans h.ts
  receivedAt := h'.receivedAt.trans h.receivedAt
  provider := h'.provider.trans h.provider
  model := h'.model.trans h.model
  usage := h'.usage.trans h.usage
  costUsd := h'.costUsd.trans h.costUsd
  status := h'.status.trans h.status

/-- The metadata is no part of the call. -/
theorem metadata (ev : LlmEvent) (j : Json) : ev.SameCall { ev with metadata := j } :=
  ⟨rfl, rfl, rfl, rfl, rfl, rfl, rfl, rfl, rfl⟩

end LlmEvent.SameCall

/-- An accounting key of the metadata that redaction does not write itself. -/
def IsAccountingKey (key : String) : Prop := key ∈ METADATA_PASSTHROUGH ∧ key ≠ REDACTION_KEY

theorem isAccountingKey_apiKeyId : IsAccountingKey "api_key_id" := by
  unfold IsAccountingKey
  decide +kernel

theorem isAccountingKey_customerId : IsAccountingKey "customer_id" := by
  unfold IsAccountingKey
  decide +kernel

theorem isAccountingKey_costSource : IsAccountingKey "cost_source" := by
  unfold IsAccountingKey
  decide +kernel

theorem IsAccountingKey.ne_value {key : String} (h : IsAccountingKey key) : key ≠ "value" := by
  intro heq
  have hmem := heq ▸ h.1
  revert hmem
  decide +kernel

/-- The same call, with the same accounting keys in its metadata. -/
structure LlmEvent.Kept (ev ev' : LlmEvent) : Prop extends LlmEvent.SameCall ev ev' where
  get : ∀ key, IsAccountingKey key → ev'.metadata.get key = ev.metadata.get key

theorem LlmEvent.Kept.refl (ev : LlmEvent) : ev.Kept ev := ⟨.refl ev, fun _ _ => rfl⟩

theorem LlmEvent.Kept.trans {ev ev' ev'' : LlmEvent} (h : ev.Kept ev') (h' : ev'.Kept ev'') :
    ev.Kept ev'' :=
  ⟨h.toSameCall.trans h'.toSameCall, fun key hkey => (h'.get key hkey).trans (h.get key hkey)⟩

/-- A surface that rewrites no accounted field. -/
def Surface.Keeps (surface : Surface) : Prop :=
  ∀ ev ev' n, surface ev = some (ev', n) → ev.Kept ev'

theorem scrubEach_kept {l : List Surface} (h : ∀ surface ∈ l, surface.Keeps) (ev : LlmEvent) :
    ev.Kept (scrubEach l ev).1 := by
  induction l generalizing ev with
  | nil => exact .refl ev
  | cons surface rest ih =>
    unfold scrubEach
    cases hs : surface ev with
    | none => exact .refl ev
    | some out =>
      have hkept := h surface (List.mem_cons_self ..) ev out.1 out.2 hs
      exact hkept.trans (ih (fun s hs => h s (List.mem_cons_of_mem _ hs)) out.1)

namespace Scrubber

variable (sc : Scrubber)

theorem scrubPayload_keeps (persistence : Redaction) (payload : LlmEvent → Option Json)
    {set : LlmEvent → Json → LlmEvent} (hset : ∀ (ev : LlmEvent) v, ev.Kept (set ev v)) :
    (sc.scrubPayload persistence payload set).Keeps := by
  intro ev ev' n h
  unfold scrubPayload at h
  split at h
  · rcases Option.bind_eq_some_iff.1 h with ⟨out, -, hout⟩
    cases hout
    exact hset ev _
  · cases h
    exact .refl ev

theorem scrubField_keeps (field : LlmEvent → Option String)
    {set : LlmEvent → String → LlmEvent} (hset : ∀ (ev : LlmEvent) s, ev.Kept (set ev s)) :
    (sc.scrubField field set).Keeps := by
  intro ev ev' n h
  unfold scrubField at h
  split at h
  · rcases Option.bind_eq_some_iff.1 h with ⟨out, -, hout⟩
    cases hout
    exact hset ev _
  · cases h
    exact .refl ev

theorem scrubTags_keeps : sc.scrubTags.Keeps := by
  intro ev ev' n h
  rcases Option.bind_eq_some_iff.1 h with ⟨tags, -, hout⟩
  cases hout
  exact ⟨⟨rfl, rfl, rfl, rfl, rfl, rfl, rfl, rfl, rfl⟩, fun _ _ => rfl⟩

/-- An accounting key reads back from the scrubbed members as it went in. -/
theorem lookup_scrubMembers {key : String} (hkey : key ∈ METADATA_PASSTHROUGH)
    {fields fields' : List (String × Json)} {n : ℕ}
    (h : sc.scrubMembers fields = some (fields', n)) :
    Json.lookup key fields' = Json.lookup key fields := by
  induction fields generalizing fields' n with
  | nil =>
    cases h
    rfl
  | cons kv fields ih =>
    rcases Option.bind_eq_some_iff.1 h with ⟨⟨value, m⟩, hmember, h⟩
    rcases Option.bind_eq_some_iff.1 h with ⟨⟨rest, k⟩, hrest, hout⟩
    cases hout
    rw [Json.lookup_cons, Json.lookup_cons, ih hrest]
    by_cases heq : kv.1 = key
    · -- the member under the key is passed through
      have hpass : sc.scrubMember kv.1 kv.2 = some (kv.2, 0) := if_pos (heq ▸ hkey)
      rw [hpass] at hmember
      cases hmember
      rfl
    · rw [if_neg heq, if_neg heq]

/-- What is no object is scrubbed to no object. -/
theorem walk_not_isObject {levels : ℕ} {v v' : Json} {w w' : Walk} (hv : v.isObject = false)
    (h : sc.walk levels v w = some (v', w')) : v'.isObject = false := by
  cases levels with
  | zero =>
    cases h
    rfl
  | succ levels =>
    unfold walk at h
    split_ifs at h
    · cases h
      rfl
    · cases v with
      | obj fields => cases hv
      | str s =>
        rcases Option.bind_eq_some_iff.1 h with ⟨out, -, hout⟩
        cases hout
        rfl
      | arr xs =>
        rcases Option.bind_eq_some_iff.1 h with ⟨out, -, hout⟩
        cases hout
        rfl
      | null =>
        cases h
        rfl
      | bool b =>
        cases h
        rfl
      | num k =>
        cases h
        rfl

theorem scrubMetadata_keeps : sc.scrubMetadata.Keeps := by
  intro ev ev' n h
  unfold scrubMetadata at h
  split at h
  next fields hmeta =>
    rcases Option.bind_eq_some_iff.1 h with ⟨out, hout, h⟩
    cases h
    refine ⟨.metadata ev _, fun key hkey => ?_⟩
    rw [hmeta]
    exact sc.lookup_scrubMembers hkey.1 hout
  next =>
    cases h
    exact .refl ev
  next hobj hnull =>
    rcases Option.bind_eq_some_iff.1 h with ⟨out, hout, h⟩
    cases h
    have hv : ev.metadata.isObject = false := Json.isObject_eq_false hobj
    rcases Option.bind_eq_some_iff.1 hout with ⟨walked, hwalk, hcapped⟩
    cases hcapped
    refine ⟨.metadata ev _, fun key _ => ?_⟩
    rw [Json.get_of_not_isObject hv]
    exact Json.get_of_not_isObject (sc.walk_not_isObject hv hwalk) key

theorem surfaces_keep (persistence : Redaction) :
    ∀ surface ∈ sc.surfaces persistence, surface.Keeps := by
  have hkept : ∀ {ev ev' : LlmEvent}, ev.SameCall ev' → ev'.metadata = ev.metadata →
      ev.Kept ev' := fun hcall hmeta => ⟨hcall, fun key _ => by rw [hmeta]⟩
  have hcall : ∀ {ev : LlmEvent} {error name source : Option String} {input output : Option Json},
      ev.SameCall { ev with error, name, source, input, output } := fun {ev} =>
    ⟨rfl, rfl, rfl, rfl, rfl, rfl, rfl, rfl, rfl⟩
  intro surface hs
  simp only [surfaces, List.mem_cons, List.not_mem_nil, or_false] at hs
  rcases hs with rfl | rfl | rfl | rfl | rfl | rfl | rfl
  · exact sc.scrubPayload_keeps persistence _ fun ev v => hkept hcall rfl
  · exact sc.scrubPayload_keeps persistence _ fun ev v => hkept hcall rfl
  · exact sc.scrubField_keeps _ fun ev s => hkept hcall rfl
  · exact sc.scrubTags_keeps
  · exact sc.scrubField_keeps _ fun ev s => hkept hcall rfl
  · exact sc.scrubField_keeps _ fun ev s => hkept hcall rfl
  · exact sc.scrubMetadata_keeps

end Scrubber

theorem stripClientStamp_kept (ev : LlmEvent) : ev.Kept (stripClientStamp ev) := by
  unfold stripClientStamp
  split
  next fields hmeta =>
    refine ⟨⟨rfl, rfl, rfl, rfl, rfl, rfl, rfl, rfl, rfl⟩, fun key hkey => ?_⟩
    rw [hmeta]
    exact Json.lookup_removeKey_of_ne hkey.2 fields
  next => exact .refl ev

/-- The stamp is written beside the accounting keys; metadata that is no object carries none. -/
theorem writeStamp_kept (sc : Scrubber) (ev : LlmEvent) (policy : Redaction) (scrub : Bool)
    (spans : ℕ) : ev.Kept (writeStamp sc ev policy scrub spans) := by
  have hfield : ∀ (key : String) (value : Json) (fields : List (String × Json)),
      IsAccountingKey key → Json.lookup key (fields ++ [(REDACTION_KEY, value)]) =
        Json.lookup key fields := by
    intro key value fields hkey
    rw [Json.lookup_append, Json.lookup_cons, if_neg fun h => hkey.2 h.symm, Json.lookup_nil,
      Option.or_none]
  unfold writeStamp
  simp only
  split
  next fields hmeta =>
    refine ⟨.metadata ev _, fun key hkey => ?_⟩
    rw [hmeta]
    exact Json.lookup_insertKey_of_ne hkey.2 _ fields
  next hmeta =>
    refine ⟨.metadata ev _, fun key hkey => ?_⟩
    rw [hmeta]
    exact hfield key _ [] hkey
  next hobj hnull =>
    have hv : ev.metadata.isObject = false := Json.isObject_eq_false hobj
    refine ⟨.metadata ev _, fun key hkey => ?_⟩
    rw [Json.get_of_not_isObject hv]
    refine (hfield key _ [("value", ev.metadata)] hkey).trans ?_
    rw [Json.lookup_cons, if_neg fun h => hkey.ne_value h.symm, Json.lookup_nil]

theorem applyPolicy_kept (sc : Scrubber) (ev : LlmEvent) (policy : Redaction) :
    ev.Kept (applyPolicy sc ev policy) := by
  cases policy <;> exact ⟨⟨rfl, rfl, rfl, rfl, rfl, rfl, rfl, rfl, rfl⟩, fun _ _ => rfl⟩

namespace Redactor

variable (r : Redactor) (ev : LlmEvent) (policy : Redaction)

/-- Redaction keeps the call, and its accounting keys too unless the scrub panics, which leaves
none. -/
theorem redactEvent_spec :
    ev.SameCall (r.redactEvent ev policy).1 ∧
      ∀ key, IsAccountingKey key → (r.redactEvent ev policy).1.metadata.get key =
        if r.enabledFor ev.projectId = true ∧
          (r.scrubber.scrubAll (stripClientStamp ev) policy).2 = none then none
        else ev.metadata.get key := by
  have hstrip := stripClientStamp_kept ev
  have hscrub := scrubEach_kept (r.scrubber.surfaces_keep policy) (stripClientStamp ev)
  unfold redactEvent
  simp only [hstrip.projectId]
  by_cases hon : r.enabledFor ev.projectId = true
  · rw [if_neg (by simp [hon])]
    cases hout : r.scrubber.scrubAll (stripClientStamp ev) policy with
    | mk ev' total =>
      have hev' : (stripClientStamp ev).Kept ev' := by
        have heq : (scrubEach (r.scrubber.surfaces policy) (stripClientStamp ev)).1 = ev' :=
          congrArg Prod.fst hout
        exact heq ▸ hscrub
      cases total with
      | some n =>
        have hkept := (hstrip.trans hev').trans (writeStamp_kept r.scrubber ev' policy true n)
        exact ⟨hkept.toSameCall, fun key hkey => by simpa using hkept.get key hkey⟩
      | none =>
        -- nothing of the metadata survives a panic
        have hwrite := writeStamp_kept r.scrubber
          { ev' with
            input := some discarded
            output := some discarded
            error := some "<REDACTION FAILED>"
            tags := []
            metadata := .null } policy true 0
        have hcall : ev'.SameCall
            { ev' with
              input := some discarded
              output := some discarded
              error := some "<REDACTION FAILED>"
              tags := []
              metadata := .null } := ⟨rfl, rfl, rfl, rfl, rfl, rfl, rfl, rfl, rfl⟩
        refine ⟨((hstrip.trans hev').toSameCall.trans hcall).trans hwrite.toSameCall,
          fun key hkey => ?_⟩
        rw [if_pos ⟨hon, rfl⟩]
        exact hwrite.get key hkey
  · rw [if_pos (by simpa using hon)]
    have hkept := hstrip.trans (writeStamp_kept r.scrubber (stripClientStamp ev) policy false 0)
    refine ⟨hkept.toSameCall, fun key hkey => ?_⟩
    rw [if_neg fun h => hon h.1]
    exact hkept.get key hkey

theorem applyClass_sameCall : ev.SameCall (r.applyClass ev policy).1 :=
  (applyPolicy_kept r.scrubber ev policy).toSameCall.trans
    (r.redactEvent_spec (applyPolicy r.scrubber ev policy) policy).1

/-- An accounting key reads back as it went in, unless the scrub panics. -/
theorem applyClass_get {key : String} (hkey : IsAccountingKey key) :
    (r.applyClass ev policy).1.metadata.get key =
      if r.Panics ev policy then none else ev.metadata.get key := by
  have hpolicy := applyPolicy_kept r.scrubber ev policy
  have hspec := (r.redactEvent_spec (applyPolicy r.scrubber ev policy) policy).2 key hkey
  rw [hpolicy.projectId, hpolicy.get key hkey] at hspec
  exact hspec

end Redactor

end LightTrack
