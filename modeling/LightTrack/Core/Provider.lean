import LightTrack.Core.Text

/-! # Provider and model identity

`ProviderId` is an open id: any name survives, canonicalized to lowercase
`[a-z0-9._-]` on construction.  `canonicalize` is the one canonicalizer of a
`(provider, model)` pair; the `family` of its result is what limit scopes
compare models on.

* `ProviderId.new_asStr` : an id is a fixed point of its own constructor, so a
  stored id reads back as itself.
-/

namespace LightTrack

/-- The sentinel a provider-less event carries. -/
def UNKNOWN_PROVIDER : String := "unknown"

/-! ## Provider ids -/

/-- The characters an id keeps. -/
def idChar (c : Char) : Bool := c.isAlphanum || c == '.' || c == '_' || c == '-'

/-- One character of the canonicalization loop: `out` so far, and whether a run of
disallowed characters is waiting to become a single `-`. -/
def idStep (st : List Char × Bool) (c : Char) : List Char × Bool :=
  let c := c.toLower
  if idChar c then
    ((if st.2 && !st.1.isEmpty then st.1 ++ ['-'] else st.1) ++ [c], false)
  else (st.1, true)

/-- The canonical characters of an id. -/
def idChars (s : String) : List Char :=
  let out := ((trimChars isWhite s.toList).foldl idStep ([], false)).1
  let trimmed := trimChars (· == '-') out
  if trimmed.isEmpty then UNKNOWN_PROVIDER.toList else trimmed

/-- A canonical id: nonempty, only lowercase id characters, no `-` at either end. -/
structure CanonicalId (cs : List Char) : Prop where
  chars : ∀ c ∈ cs, idChar c = true ∧ c.toLower = c
  trimmed : trimChars (· == '-') cs = cs
  nonempty : cs ≠ []

theorem toLower_toLower (c : Char) : c.toLower.toLower = c.toLower := by
  by_cases h : c.val ≥ 'A'.val ∧ c.val ≤ 'Z'.val
  · have hlow : ¬ (c.toLower.val ≥ 'A'.val ∧ c.toLower.val ≤ 'Z'.val) := by
      have hval : c.toLower.val = c.val + ('a'.val - 'A'.val) := congrArg Char.val (dif_pos h)
      rw [hval]
      simp only [ge_iff_le, UInt32.le_iff_toNat_le, UInt32.toNat_add] at h ⊢
      have hbounds : 'A'.val.toNat = 65 ∧ 'Z'.val.toNat = 90 ∧
          ('a'.val - 'A'.val).toNat = 32 := by decide
      omega
    exact dif_neg hlow
  · have hsame : c.toLower = c := dif_neg h
    rw [hsame, hsame]

theorem idStep_chars {st : List Char × Bool} (c : Char)
    (h : ∀ c ∈ st.1, idChar c = true ∧ c.toLower = c) :
    ∀ c' ∈ (idStep st c).1, idChar c' = true ∧ c'.toLower = c' := by
  intro c' hc'
  unfold idStep at hc'
  simp only at hc'
  split_ifs at hc' with hid hsep
  · rcases List.mem_append.1 hc' with hc' | hc'
    · rcases List.mem_append.1 hc' with hc' | hc'
      · exact h c' hc'
      · rw [List.mem_singleton.1 hc']
        decide
    · rw [List.mem_singleton.1 hc']
      exact ⟨hid, toLower_toLower c⟩
  · rcases List.mem_append.1 hc' with hc' | hc'
    · exact h c' hc'
    · rw [List.mem_singleton.1 hc']
      exact ⟨hid, toLower_toLower c⟩
  · exact h c' hc'

theorem foldl_idStep_chars (l : List Char) (st : List Char × Bool)
    (h : ∀ c ∈ st.1, idChar c = true ∧ c.toLower = c) :
    ∀ c' ∈ (l.foldl idStep st).1, idChar c' = true ∧ c'.toLower = c' := by
  induction l generalizing st with
  | nil => exact h
  | cons c l ih => exact ih _ (idStep_chars c h)

/-- What the constructor builds is canonical. -/
theorem canonicalId_idChars (s : String) : CanonicalId (idChars s) := by
  have hout := foldl_idStep_chars (trimChars isWhite s.toList) ([], false) (by simp)
  unfold idChars
  simp only
  split_ifs with hempty
  · have hall : UNKNOWN_PROVIDER.toList.all (fun c => idChar c && c.toLower == c) = true := by
      decide +kernel
    refine ⟨fun c hc => ?_, by decide +kernel, by decide +kernel⟩
    simpa using List.all_eq_true.1 hall c hc
  · exact ⟨fun c hc => hout c (mem_of_mem_trimChars hc), trimChars_trimChars _ _,
      by simpa using hempty⟩

/-- On characters it keeps unchanged the loop only copies. -/
theorem foldl_idStep_copy (l : List Char) (out : List Char)
    (h : ∀ c ∈ l, idChar c = true ∧ c.toLower = c) :
    l.foldl idStep (out, false) = (out ++ l, false) := by
  induction l generalizing out with
  | nil => simp
  | cons c l ih =>
    obtain ⟨hid, hlow⟩ := h c (List.mem_cons_self ..)
    have hstep : idStep (out, false) c = (out ++ [c], false) := by simp [idStep, hlow, hid]
    rw [List.foldl_cons, hstep, ih _ (fun c hc => h c (List.mem_cons_of_mem _ hc))]
    simp

/-- An id character is an ASCII letter, a digit, `.`, `_` or `-`, and none of these is a space. -/
theorem isWhite_of_idChar {c : Char} (h : idChar c = true) : isWhite c = false := by
  have hrange : (45 ≤ c.toNat ∧ c.toNat ≤ 46) ∨ (48 ≤ c.toNat ∧ c.toNat ≤ 57) ∨
      (65 ≤ c.toNat ∧ c.toNat ≤ 90) ∨ (95 ≤ c.toNat ∧ c.toNat ≤ 122) := by
    have hclass : (decide ('A'.val ≤ c.val ∧ c.val ≤ 'Z'.val) ||
        (decide ('a'.val ≤ c.val) && decide (c.val ≤ 'z'.val)) ||
        (decide ('0'.val ≤ c.val) && decide (c.val ≤ '9'.val)) ||
        c == '.' || c == '_' || c == '-') = true := h
    simp only [Bool.or_eq_true, Bool.and_eq_true, decide_eq_true_eq, beq_iff_eq,
      UInt32.le_iff_toNat_le] at hclass
    have hval : c.val.toNat = c.toNat := rfl
    rcases hclass with ((hclass | rfl) | rfl) | rfl
    · have hbounds : 'A'.val.toNat = 65 ∧ 'Z'.val.toNat = 90 ∧ 'a'.val.toNat = 97 ∧
          'z'.val.toNat = 122 ∧ '0'.val.toNat = 48 ∧ '9'.val.toNat = 57 := by decide
      omega
    all_goals decide
  simp only [isWhite, Bool.or_eq_false_iff, Bool.and_eq_false_iff, decide_eq_false_iff_not,
    beq_eq_false_iff_ne, ne_eq]
  omega

/-- `trim` leaves a canonical id alone, and so does the loop. -/
theorem idChars_of_canonical {cs : List Char} (h : CanonicalId cs) :
    idChars (String.ofList cs) = cs := by
  have htrim : trimChars isWhite (String.ofList cs).toList = cs := by
    rw [String.toList_ofList]
    exact trimChars_eq_self fun c hc => isWhite_of_idChar (h.chars c hc).1
  unfold idChars
  simp only [htrim, foldl_idStep_copy cs [] h.chars, List.nil_append, h.trimmed]
  rw [if_neg (by simpa using h.nonempty)]

/-- A canonical provider id. -/
structure ProviderId where
  chars : List Char
  canonical : CanonicalId chars
  deriving DecidableEq

namespace ProviderId

/-- Canonicalize an arbitrary string into an id. -/
def new (s : String) : ProviderId := ⟨idChars s, canonicalId_idChars s⟩

theorem new_chars (s : String) : (new s).chars = idChars s := by
  simp only [new]

/-- `ProviderId::as_str`. -/
def asStr (p : ProviderId) : String := String.ofList p.chars

/-- Whether the id is the "we were never told" sentinel. -/
def isUnknown (p : ProviderId) : Bool := p.asStr == UNKNOWN_PROVIDER

@[ext] theorem ext {p q : ProviderId} (h : p.chars = q.chars) : p = q := by
  cases p
  cases q
  simpa using h

/-- An id read back from its own spelling is itself. -/
@[simp] theorem new_asStr (p : ProviderId) : new p.asStr = p := by
  apply ext
  rw [new_chars, asStr]
  exact idChars_of_canonical p.canonical

end ProviderId

/-! ## Canonical model identity -/

/-- Declared provider synonyms. -/
def PROVIDER_SYNONYMS : List (String × String) :=
  [("azure-openai", "openai"), ("azure", "openai"), ("google-vertex", "google"),
   ("vertex", "google"), ("vertex_ai", "google"), ("vertex-ai", "google"),
   ("gemini", "google"), ("anthropic-bedrock", "anthropic"), ("bedrock-anthropic", "anthropic")]

/-- A canonical model identity; `family` is the merge key. -/
structure ModelId where
  provider : ProviderId
  family : String
  variant : Option String
  lane : Option String

/-- Fold a provider id through the declared synonym table. -/
def synonym (id : ProviderId) : ProviderId :=
  match PROVIDER_SYNONYMS.find? (fun kv => kv.1 == id.asStr) with
  | some (_, canon) => .new canon
  | none => id

/-- Whether the characters at the given positions are all ASCII digits. -/
def digitsAt (cs : List Char) (positions : List Nat) : Bool :=
  positions.all fun i => (cs[i]?).any Char.isDigit

/-- Split a trailing `-YYYY-MM-DD` or `-YYYYMMDD` off a model name. -/
def splitDateSuffix (model : String) : String × Option String :=
  let cs := model.toList
  let long := cs.length - 11
  let short := cs.length - 9
  let cut (s : Nat) := (String.ofList (cs.take s), some (String.ofList (cs.drop (s + 1))))
  if 11 < cs.length && cs[long]? == some '-' && cs[long + 5]? == some '-' &&
      cs[long + 8]? == some '-' && digitsAt cs ((List.range 4).map (long + 1 + ·)) &&
      digitsAt cs ((List.range 2).map (long + 6 + ·)) &&
      digitsAt cs ((List.range 2).map (long + 9 + ·)) then cut long
  else if 9 < cs.length && cs[short]? == some '-' &&
      digitsAt cs ((List.range 8).map (short + 1 + ·)) then cut short
  else (model, none)

/-- Canonicalize `(provider, model)` through the derivable rules: provider synonyms, a
`provider/model` prefix, the pricing lane and the date suffix. -/
def canonicalize (provider model : String) : ModelId :=
  let model := toAsciiLowercase (strTrim model)
  let (prefix?, model) :=
    match splitOnce '/' model with
    | some (pre, rest) =>
      if !isBlank pre && !isBlank rest then (some (strTrim pre), strTrim rest) else (none, model)
    | none => (none, model)
  let id := ProviderId.new provider
  let id := match id.isUnknown, prefix? with
    | true, some p => ProviderId.new p
    | _, _ => id
  let (rest, lane) :=
    match splitOnce '@' model with
    | some (head, tail) => if head != "" && tail != "" then (head, some tail) else (model, none)
    | none => (model, none)
  let (family, variant) := splitDateSuffix rest
  { provider := synonym id, family, variant, lane }

/-- Dated releases, gateway prefixes and pricing lanes all fold into one family. -/
example : (canonicalize "openai" "openai/GPT-4o-2024-08-06@batch").family = "gpt-4o" := by
  decide +kernel

end LightTrack
