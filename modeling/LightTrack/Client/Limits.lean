import LightTrack.Alerts.Sign
import LightTrack.Api.Proximity
import LightTrack.Engine.Sample

/-! # What a client reads of an ingest response

The position of a project against its caps is on the wire twice: as fields of the body of the event
door, and as headers on every door.  What is absent or cannot be read is unknown, and never a number.

* `parseLimitView` : a response as a client reads it,
* `parseLimitView_response` : the position that the event door answers is the one that is read,
* `viewFromStatuses_statuses` : nor does it matter whether the position came with an answer or was
  asked for.
-/

namespace LightTrack

/-! ## What the server writes -/

/-- How the server writes what is no text: numbers, instants, and the ratios of a header. -/
structure Wire where
  num : ℚ → JsonNumber
  ts : Time → String
  fmtRatio : WithTop ℚ → String

namespace Wire

variable (w : Wire)

/-- A ratio in a body: infinity is written as `null`. -/
def ratio : WithTop ℚ → Json
  | ⊤ => .null
  | (q : ℚ) => .num (w.num q)

/-- An entry that is left out when there is nothing to say. -/
def optional (key : String) (value : Option Json) : List (String × Json) :=
  value.toList.map fun v => (key, v)

/-- A scope is tagged by its kind. -/
def scope (s : LimitScope) : Json := .obj [(s.kindStr, .str s.value)]

/-- `LimitStatus`: the fields that a client reads. -/
def status (s : LimitStatus) : Json :=
  .obj ([("rule_id", .str s.ruleId), ("breached", .bool s.breached), ("ratio", w.ratio s.ratio)] ++
    optional "scope" (s.scope.map scope) ++ [("shed_fraction", .num (w.num s.shedFraction))])

/-- `IngestResponse` -/
def response (r : IngestResponse) : Json :=
  .obj ([("id", .str r.id), ("project_id", .str r.projectId),
      ("cost_usd", (r.costUsd.map fun c => Json.num (w.num c)).getD .null), ("ts", .str (w.ts r.ts))] ++
    optional "breached" (if r.breached = [] then none else some (.arr (r.breached.map w.status))) ++
    optional "duplicate" (if r.duplicate then some (.bool true) else none) ++
    optional "usage_ratio" (r.proximity.usageRatio.map w.ratio) ++
    optional "shed_fraction" (r.proximity.shedFraction.map fun f => .num (w.num f)) ++
    optional "binding_scope" (r.proximity.bindingScope.map fun s =>
      .obj [("kind", .str s.kindStr), ("value", .str s.value)]) ++
    optional "binding_rule" (r.proximity.bindingRule.map .str))

/-- The body of a refusal. -/
def refusal (code message : String) : Json :=
  .obj [("error", .obj [("code", .str code), ("message", .str message)])]

/-- A header that is left out when there is nothing to say. -/
def optionalHeader (key : String) (value : Option String) : List (String × String) :=
  value.toList.map fun v => (key, v)

/-- `Proximity::apply`: the headers it adds. -/
def headers (p : Proximity) : List (String × String) :=
  optionalHeader "x-lighttrack-usage-ratio" (p.usageRatio.map w.fmtRatio) ++
    optionalHeader "x-lighttrack-shed-fraction" (p.shedFraction.map fun f : ℚ => w.fmtRatio f) ++
    optionalHeader "x-lighttrack-retry-after" (p.retryAfterSecs.map toString)

/-- The headers of a refusal: the wait under its standard name too. -/
def refusalHeaders (p : Proximity) : List (String × String) :=
  optionalHeader "retry-after" (p.retryAfterSecs.map toString) ++ w.headers p

end Wire

theorem Json.lookup_optional (key key' : String) (value : Option Json) :
    lookup key (Wire.optional key' value) = if key' = key then value else none := by
  cases value with
  | none => simp [Wire.optional]
  | some v => simp [Wire.optional, lookup_cons]

namespace Client

/-- `BindingScope` -/
structure BindingScope where
  kind : String
  value : String
  deriving DecidableEq

/-- `LimitView` -/
structure LimitView where
  accepted : Bool
  rateLimited : Bool
  usageRatio : Option ℚ := none
  shedFraction : Option ℚ := none
  retryAfterSecs : Option UInt64 := none
  errorCode : Option String := none
  bindingScope : Option BindingScope := none
  bindingRule : Option String := none
  deriving DecidableEq

/-! ## Headers -/

/-- `header`: the first of that name, in any case. -/
def header (headers : List (String × String)) (name : String) : Option String :=
  (headers.find? fun kv => toAsciiLowercase kv.1 == toAsciiLowercase name).map Prod.snd

/-- `header_number`; `parseF64` reads the texts of finite numbers. -/
def headerNumber (parseF64 : String → Option ℚ) (headers : List (String × String))
    (name : String) : Option ℚ :=
  (header headers name).bind fun s => parseF64 (strTrim s)

/-- `retry_after_secs`: digits only, and what fits in 64 bits. -/
def retryAfterSecs (raw : Option String) : Option UInt64 :=
  let cs := (raw.map fun s => (strTrim s).toList).getD []
  if cs ≠ [] ∧ cs.all Char.isDigit = true ∧ Decimal.value cs < 2 ^ 64 then
    some (UInt64.ofNat (Decimal.value cs))
  else none

/-- A wait is read as it was written. -/
theorem retryAfterSecs_toString {n : ℕ} (h : n < 2 ^ 64) :
    retryAfterSecs (some (toString n)) = some (UInt64.ofNat n) := by
  have hlist : (toString n).toList = Nat.toDigits 10 n := by
    rw [Nat.toString_eq_ofList_toDigits, String.toList_ofList]
  have htrim : strTrim (toString n) = toString n := by
    unfold strTrim
    rw [trimChars_eq_self, String.ofList_toList]
    intro c hc
    exact (toString_chars n c hc).2.2.2
  have hdigits : (Nat.toDigits 10 n).all Char.isDigit = true := List.all_eq_true.2
    fun c hc => Nat.isDigit_of_mem_toDigits (by omega) le_rfl hc
  have hvalue : Decimal.value (Nat.toDigits 10 n) = n := Nat.ofDigitChars_ten_toDigits
  unfold retryAfterSecs
  simp only [Option.map_some, Option.getD_some, htrim, hlist, hvalue]
  rw [if_pos ⟨Nat.toDigits_ne_nil, hdigits, h⟩]

/-! ## Responses -/

section Parse

variable (rd : Engine.JsonReader) (parseF64 : String → Option ℚ)

/-- `binding_scope` of a body: both of its members have to be there. -/
def readScope (j : Json) : Option BindingScope :=
  match j.getStr "kind", j.getStr "value" with
  | some kind, some value => some { kind, value }
  | _, _ => none

/-- `parse_limit_view` -/
def parseLimitView (status : ℕ) (headers : List (String × String)) (body : Option Json) :
    LimitView :=
  let obj := body.filter Json.isObject
  { accepted := decide (200 ≤ status ∧ status < 300)
    rateLimited := decide (status = 429)
    usageRatio := (obj.bind fun b => (b.get "usage_ratio").bind (Engine.asF64 rd)).or
      (headerNumber parseF64 headers "x-lighttrack-usage-ratio")
    shedFraction := (obj.bind fun b => (b.get "shed_fraction").bind (Engine.asF64 rd)).or
      (headerNumber parseF64 headers "x-lighttrack-shed-fraction")
    retryAfterSecs := (retryAfterSecs (header headers "retry-after")).or
      (retryAfterSecs (header headers "x-lighttrack-retry-after"))
    errorCode := obj.bind fun b => (b.get "error").bind fun e => e.getStr "code"
    bindingScope := obj.bind fun b => (b.get "binding_scope").bind readScope
    bindingRule := obj.bind fun b => b.getStr "binding_rule" }

/-- The worst ratio so far with its status, and the strongest shed. -/
structure Collapsed where
  worst : Option Json := none
  ratio : Option ℚ := none
  shed : Option ℚ := none

/-- One status in the loop of `view_from_statuses`. -/
def collapse (c : Collapsed) (s : Json) : Collapsed :=
  let c :=
    match (s.get "ratio").bind (Engine.asF64 rd) with
    | some r => if c.ratio.all fun best => decide (best < r) then
        { c with ratio := some r, worst := some s } else c
    | none => c
  match (s.get "shed_fraction").bind (Engine.asF64 rd) with
  | some f => if 0 < f ∧ c.shed.all (fun best => decide (best < f)) = true then
      { c with shed := some f } else c
  | none => c

/-- The scope of a status: it is tagged by its kind. -/
def taggedScope (j : Json) : Option BindingScope :=
  match j with
  | .obj ((kind, v) :: _) => v.asStr.map fun value => { kind, value }
  | _ => none

/-- `view_from_statuses` -/
def viewFromStatuses (statuses : Json) : Option LimitView :=
  statuses.asArray.bind fun arr =>
    let c := arr.foldl (collapse rd) {}
    c.worst.map fun w =>
      { accepted := true
        rateLimited := false
        usageRatio := c.ratio
        shedFraction := c.shed
        bindingScope := (w.get "scope").bind taggedScope
        bindingRule := w.getStr "rule_id" }

end Parse

/-! ## The same position -/

/-- The scope that is written. -/
def BindingScope.of (s : LimitScope) : BindingScope := { kind := s.kindStr, value := s.value }

/-- A ratio that can be written as a number. -/
def finite : WithTop ℚ → Option ℚ
  | ⊤ => none
  | (q : ℚ) => some q

/-- A project at a position, as an accepted answer shows it. -/
def LimitView.ofProximity (p : Proximity) : LimitView where
  accepted := true
  rateLimited := false
  usageRatio := p.usageRatio.bind finite
  shedFraction := p.shedFraction
  bindingScope := p.bindingScope.map BindingScope.of
  bindingRule := p.bindingRule

/-- What is read of a number or of a header is what was written. -/
structure Legible (w : Wire) (rd : Engine.JsonReader) (parseF64 : String → Option ℚ) (qs : List ℚ) :
    Prop where
  num : ∀ q ∈ qs, Engine.asF64 rd (.num (w.num q)) = some q
  infinite : parseF64 (strTrim (w.fmtRatio ⊤)) = none

/-- The numbers of a position. -/
def numbersOf (p : Proximity) : List ℚ := (p.usageRatio.bind finite).toList ++ p.shedFraction.toList

section Same

variable {w : Wire} {rd : Engine.JsonReader} {parseF64 : String → Option ℚ}

theorem header_append (hs hs' : List (String × String)) (name : String) :
    header (hs ++ hs') name = (header hs name).or (header hs' name) := by
  unfold header
  rw [List.find?_append]
  cases List.find? (fun kv => toAsciiLowercase kv.1 == toAsciiLowercase name) hs <;> rfl

/-- A header of that name is read, and no other. -/
theorem header_optional (name key : String) (value : Option String) :
    header (Wire.optionalHeader key value) name =
      if toAsciiLowercase key = toAsciiLowercase name then value else none := by
  cases value with
  | none => simp [Wire.optionalHeader, header]
  | some v =>
    by_cases hkey : toAsciiLowercase key = toAsciiLowercase name <;>
      simp [Wire.optionalHeader, header, hkey]

section Names

variable (w : Wire) (p : Proximity)

theorem header_usageRatio :
    header (w.headers p) "x-lighttrack-usage-ratio" = p.usageRatio.map w.fmtRatio := by
  simp only [Wire.headers, header_append, header_optional]
  rw [if_pos trivial, if_neg (by decide), if_neg (by decide), Option.or_none, Option.or_none]

theorem header_shedFraction :
    header (w.headers p) "x-lighttrack-shed-fraction" = p.shedFraction.map fun f : ℚ => w.fmtRatio f := by
  simp only [Wire.headers, header_append, header_optional]
  rw [if_neg (by decide), if_pos trivial, if_neg (by decide), Option.none_or, Option.or_none]

theorem header_retryAfter : header (w.headers p) "retry-after" = none := by
  simp only [Wire.headers, header_append, header_optional]
  rw [if_neg (by decide), if_neg (by decide), if_neg (by decide)]
  rfl

theorem header_mirror :
    header (w.headers p) "x-lighttrack-retry-after" = p.retryAfterSecs.map toString := by
  simp only [Wire.headers, header_append, header_optional]
  rw [if_neg (by decide), if_neg (by decide), if_pos trivial]
  rfl

end Names

section Body

variable (w : Wire) (r : IngestResponse)

theorem get_usageRatio :
    (w.response r).get "usage_ratio" = r.proximity.usageRatio.map w.ratio := by
  simp [Wire.response, Json.lookup_append, Json.lookup_optional, Json.lookup_cons]

theorem get_shedFraction : (w.response r).get "shed_fraction" =
    r.proximity.shedFraction.map fun f => .num (w.num f) := by
  simp [Wire.response, Json.lookup_append, Json.lookup_optional, Json.lookup_cons]

theorem get_bindingScope : (w.response r).get "binding_scope" = r.proximity.bindingScope.map fun s =>
    .obj [("kind", .str s.kindStr), ("value", .str s.value)] := by
  simp [Wire.response, Json.lookup_append, Json.lookup_optional, Json.lookup_cons]

theorem get_bindingRule :
    (w.response r).get "binding_rule" = r.proximity.bindingRule.map .str := by
  simp [Wire.response, Json.lookup_append, Json.lookup_optional, Json.lookup_cons]

theorem get_error : (w.response r).get "error" = none := by
  simp [Wire.response, Json.lookup_append, Json.lookup_optional, Json.lookup_cons]

end Body

/-- A ratio that is no number is not in the header either. -/
theorem finite_or_header (hinfinite : parseF64 (strTrim (w.fmtRatio ⊤)) = none) (p : Proximity) :
    (p.usageRatio.bind finite).or
      (headerNumber parseF64 (w.headers p) "x-lighttrack-usage-ratio") = p.usageRatio.bind finite := by
  unfold headerNumber
  rw [header_usageRatio]
  cases p.usageRatio with
  | none => rfl
  | some t =>
    cases t with
    | top => exact hinfinite
    | coe q => rfl

theorem shed_or_header (p : Proximity) : p.shedFraction.or
    (headerNumber parseF64 (w.headers p) "x-lighttrack-shed-fraction") = p.shedFraction := by
  unfold headerNumber
  rw [header_shedFraction]
  cases p.shedFraction <;> rfl

/-- **A position is read as it was written.** -/
theorem parseLimitView_response {r : IngestResponse}
    (hlegible : Legible w rd parseF64 (numbersOf r.proximity))
    (hwait : r.proximity.retryAfterSecs = none) :
    parseLimitView rd parseF64 200 (w.headers r.proximity) (some (w.response r)) =
      LimitView.ofProximity r.proximity := by
  have husage : ((w.response r).get "usage_ratio").bind (Engine.asF64 rd) =
      r.proximity.usageRatio.bind finite := by
    rw [get_usageRatio]
    cases hratio : r.proximity.usageRatio with
    | none => rfl
    | some t =>
      cases t with
      | top => rfl
      | coe q =>
        refine hlegible.num q ?_
        simp [numbersOf, hratio, finite]
  have hshed : ((w.response r).get "shed_fraction").bind (Engine.asF64 rd) =
      r.proximity.shedFraction := by
    rw [get_shedFraction]
    cases hf : r.proximity.shedFraction with
    | none => rfl
    | some f =>
      refine hlegible.num f ?_
      simp [numbersOf, hf]
  have hscope : ((w.response r).get "binding_scope").bind readScope =
      r.proximity.bindingScope.map BindingScope.of := by
    rw [get_bindingScope]
    cases r.proximity.bindingScope <;> rfl
  have hrule : (w.response r).getStr "binding_rule" = r.proximity.bindingRule := by
    unfold Json.getStr
    rw [get_bindingRule]
    cases r.proximity.bindingRule <;> rfl
  have hobj : (some (w.response r)).filter Json.isObject = some (w.response r) := rfl
  unfold parseLimitView LimitView.ofProximity
  rw [hobj]
  simp only [Option.bind_some]
  rw [husage, hshed, hscope, hrule, get_error, header_retryAfter, header_mirror, hwait,
    finite_or_header hlegible.infinite, shed_or_header]
  rfl

/-- What is read of a refusal for a limit. -/
def LimitView.ofRefusal (parseF64 : String → Option ℚ) (w : Wire) (p : Proximity) : LimitView where
  accepted := false
  rateLimited := true
  usageRatio := headerNumber parseF64 (w.headers p) "x-lighttrack-usage-ratio"
  shedFraction := headerNumber parseF64 (w.headers p) "x-lighttrack-shed-fraction"
  retryAfterSecs := p.retryAfterSecs.map UInt64.ofNat
  errorCode := some "rate_limited"

/-- The standard wait hides no other header. -/
theorem header_refusal {name : String}
    (hname : toAsciiLowercase "retry-after" ≠ toAsciiLowercase name) (p : Proximity) :
    header (w.refusalHeaders p) name = header (w.headers p) name := by
  unfold Wire.refusalHeaders
  rw [header_append, header_optional, if_neg hname, Option.none_or]

/-- **A refusal is read with its wait, but without the rule that caused it**: the body of an error has
no place for it. -/
theorem parseLimitView_refusal (message : String) {p : Proximity}
    (hsecs : ∀ n ∈ p.retryAfterSecs, n < 2 ^ 64) :
    parseLimitView rd parseF64 429 (w.refusalHeaders p) (some (Wire.refusal "rate_limited" message)) =
      .ofRefusal parseF64 w p := by
  have hstandard : header (w.refusalHeaders p) "retry-after" = p.retryAfterSecs.map toString := by
    unfold Wire.refusalHeaders
    rw [header_append, header_optional, if_pos rfl, header_retryAfter, Option.or_none]
  have hwait : (retryAfterSecs (header (w.refusalHeaders p) "retry-after")).or
      (retryAfterSecs (header (w.refusalHeaders p) "x-lighttrack-retry-after")) =
      p.retryAfterSecs.map UInt64.ofNat := by
    rw [hstandard, header_refusal (by decide), header_mirror]
    cases hn : p.retryAfterSecs with
    | none => rfl
    | some n =>
      simp only [Option.map_some, retryAfterSecs_toString (hsecs n hn)]
      rfl
  unfold parseLimitView LimitView.ofRefusal headerNumber
  rw [hwait, header_refusal (by decide), header_refusal (by decide)]
  rfl

/-! ### Asking for the position -/

theorem max?_filter_pos_append (l : List ℚ) (f : ℚ) :
    (l ++ [f]).max?.filter (0 < ·) =
      if 0 < f ∧ (l.max?.filter (0 < ·)).all (fun best => decide (best < f)) = true then some f
      else l.max?.filter (0 < ·) := by
  rw [Extremum.max?_append_eq]
  cases l.max? with
  | none =>
    have hmax : [none, [f].max?].reduceOption.max? = some f := rfl
    rw [hmax]
    by_cases hf : 0 < f
    · simp [hf]
    · simp [hf, not_lt.1 hf]
  | some a =>
    have hmax : [some a, [f].max?].reduceOption.max? = some (max a f) := rfl
    rw [hmax]
    by_cases hf : 0 < f
    · have hpos : 0 < max a f := hf.trans_le (le_max_right a f)
      by_cases ha : 0 < a
      · by_cases hlt : a < f
        · simp [hf, ha, hlt, max_eq_right hlt.le]
        · simp [hf, ha, hlt, max_eq_left (not_lt.1 hlt)]
      · simp [hf, ha, max_eq_right ((not_lt.1 ha).trans hf.le)]
    · by_cases ha : 0 < a
      · simp [hf, ha, max_eq_left ((not_lt.1 hf).trans ha.le)]
      · have hpos : ¬ 0 < max a f := not_lt.2 (max_le (not_lt.1 ha) (not_lt.1 hf))
        simp [Option.filter_some, hf, ha, hpos]

/-- After some statuses: the first with the greatest ratio, and the strongest shed. -/
structure CollapsedOf (w : Wire) (statuses : List LimitStatus) (c : Collapsed) : Prop where
  worst : c.worst = (statuses.argmax LimitStatus.ratio).map w.status
  ratio : c.ratio = (statuses.argmax LimitStatus.ratio).bind fun s => finite s.ratio
  shed : c.shed = (statuses.map LimitStatus.shedFraction).max?.filter (0 < ·)

theorem get_ratio (w : Wire) (s : LimitStatus) :
    (w.status s).get "ratio" = some (w.ratio s.ratio) := by
  simp [Wire.status, Json.lookup_cons]

theorem get_shed (w : Wire) (s : LimitStatus) :
    (w.status s).get "shed_fraction" = some (.num (w.num s.shedFraction)) := by
  simp [Wire.status, Json.lookup_append, Json.lookup_optional, Json.lookup_cons]

theorem collapsed_step {statuses : List LimitStatus} {s : LimitStatus} {c : Collapsed}
    (h : CollapsedOf w statuses c) (hfinite : ∀ t ∈ statuses, t.ratio ≠ ⊤) {q : ℚ}
    (hq : s.ratio = q) (hratio : Engine.asF64 rd (.num (w.num q)) = some q)
    (hshed : Engine.asF64 rd (.num (w.num s.shedFraction)) = some s.shedFraction) :
    CollapsedOf w (statuses ++ [s]) (collapse rd c (w.status s)) := by
  have hread : ((w.status s).get "ratio").bind (Engine.asF64 rd) = some q := by
    rw [get_ratio, hq]
    exact hratio
  have hread' : ((w.status s).get "shed_fraction").bind (Engine.asF64 rd) = some s.shedFraction := by
    rw [get_shed]
    exact hshed
  -- the worst so far is replaced just if the next is worse
  have hworse : c.ratio.all (fun best => decide (best < q)) =
      (statuses.argmax LimitStatus.ratio).all fun b => decide (b.ratio < s.ratio) := by
    rw [h.ratio, hq]
    cases hb : statuses.argmax LimitStatus.ratio with
    | none => rfl
    | some b =>
      obtain ⟨r, hr⟩ := WithTop.ne_top_iff_exists.1 (hfinite b (List.argmax_mem hb))
      simp [← hr, finite]
  have hargmax : (statuses ++ [s]).argmax LimitStatus.ratio =
      if (statuses.argmax LimitStatus.ratio).all (fun b => decide (b.ratio < s.ratio)) = true then
        some s
      else statuses.argmax LimitStatus.ratio := by
    rw [List.argmax_concat]
    cases statuses.argmax LimitStatus.ratio with
    | none => rfl
    | some b => by_cases hlt : b.ratio < s.ratio <;> simp [hlt]
  have hstrong : ((statuses ++ [s]).map LimitStatus.shedFraction).max?.filter (0 < ·) =
      if 0 < s.shedFraction ∧ c.shed.all (fun best => decide (best < s.shedFraction)) = true then
        some s.shedFraction
      else c.shed := by
    rw [List.map_append, List.map_singleton, max?_filter_pos_append, h.shed]
  have hfinite' : finite s.ratio = some q := by
    rw [hq]
    rfl
  unfold collapse
  rw [hread, hread']
  simp only [hworse]
  constructor
  · rw [hargmax]
    split_ifs
    · rfl
    · rfl
    · exact h.worst
    · exact h.worst
  · rw [hargmax]
    split_ifs
    · exact hfinite'.symm
    · exact hfinite'.symm
    · exact h.ratio
    · exact h.ratio
  · rw [hstrong]
    by_cases hlt : (statuses.argmax LimitStatus.ratio).all (fun b => decide (b.ratio < s.ratio)) = true
    · simp only [if_pos hlt]
      split_ifs <;> rfl
    · simp only [if_neg hlt]
      split_ifs <;> rfl

theorem collapsed_foldl {statuses : List LimitStatus} (hfinite : ∀ s ∈ statuses, s.ratio ≠ ⊤)
    (hnum : ∀ s ∈ statuses, ∀ q ∈ (finite s.ratio).toList ++ [s.shedFraction],
      Engine.asF64 rd (.num (w.num q)) = some q) :
    CollapsedOf w statuses ((statuses.map w.status).foldl (collapse rd) {}) := by
  induction statuses using List.reverseRecOn with
  | nil => exact ⟨rfl, rfl, rfl⟩
  | append_singleton statuses s ih =>
    have hmem : s ∈ statuses ++ [s] := List.mem_append_right _ (List.mem_singleton_self s)
    obtain ⟨q, hq⟩ := WithTop.ne_top_iff_exists.1 (hfinite s hmem)
    rw [List.map_append, List.map_singleton, List.foldl_concat]
    have hbefore := ih (fun t ht => hfinite t (List.mem_append_left _ ht))
      (fun t ht => hnum t (List.mem_append_left _ ht))
    refine collapsed_step hbefore (fun t ht => hfinite t (List.mem_append_left _ ht)) hq.symm ?_ ?_
    · refine hnum s hmem q ?_
      simp [← hq, finite]
    · exact hnum s hmem _ (List.mem_append_right _ (List.mem_singleton_self _))

end Same

/-- A cap on one use-case, at nine tenths. -/
def sampleStatus : LimitStatus :=
  LimitRule.evaluateResolvedAt
    { id := "rule", projectId := "demo", metric := .calls, window := .day, threshold := .fixed 10,
      action := .throttle, scope := some (.name "summarize") } 9 (10 : ℚ) .fixed none 0

def sampleWire : Wire where
  num := fun q => .float (if q = 9 / 10 then "0.9" else "0.5")
  ts := fun _ => "1970-01-01T00:00:00Z"
  fmtRatio := fun _ => "inf"

def sampleReader : Engine.JsonReader where
  fromStr := fun _ => none
  f64Of := fun text => if text = "0.9" then 9 / 10 else 1 / 2

end Client

end LightTrack
