import LightTrack.Core.Event
import Mathlib.Algebra.Order.Ring.Rat
import Mathlib.Data.List.Dedup

/-! # The price book

Rates per million tokens, keyed `provider/model`, with lane variants (`@batch`,
`@flex`) and prompt-length tiers (`@in>N`).  A key is tried as written, then
canonicalized, then through the declared aliases, then under the lab family of
its provider.  Money is exact, so no rounding occurs.

The book's `verified_at` date plays no part in a price and is left out.
-/

namespace LightTrack

/-! ## Lab families -/

/-- The coarse lab behind a provider or model name. -/
inductive ProviderFamily where
  | openAi
  | anthropic
  | google
  | mistral
  | metaAi
  | other
  deriving DecidableEq

namespace ProviderFamily

/-- The wire label. -/
def asStr : ProviderFamily → String
  | openAi => "openai"
  | anthropic => "anthropic"
  | google => "google"
  | mistral => "mistral"
  | metaAi => "meta"
  | other => UNKNOWN_PROVIDER

/-- Whether the lab is one we classify. -/
def isKnown (f : ProviderFamily) : Bool := f ≠ other

end ProviderFamily

/-- `str::contains`. -/
def strContains (s marker : String) : Bool := s.toList.tails.any (marker.toList.isPrefixOf ·)

/-- `str::starts_with`. -/
def strStartsWith (s marker : String) : Bool := marker.toList.isPrefixOf s.toList

/-- Whether `s` starts with any marker, at a token boundary. -/
def startsAny (s : String) (markers : List String) : Bool :=
  markers.any fun m =>
    strStartsWith s m &&
      match s.toList.drop m.length with
      | [] => true
      | c :: _ => c == '-' || c == '.'

/-- Classify a provider id or a model name into a lab family. -/
def familyOf (s : String) : ProviderFamily :=
  let s := toAsciiLowercase (strTrim s)
  if s == "" then .other
  else if strContains s "anthropic" || strContains s "claude" ||
      startsAny s ["haiku", "sonnet", "opus"] then .anthropic
  else if strContains s "openai" || strContains s "gpt" ||
      startsAny s ["azure", "o1", "o3", "o4"] then .openAi
  else if strContains s "google" || strContains s "gemini" || strContains s "gemma" ||
      strContains s "vertex" || strContains s "bison" || strStartsWith s "gcp" then .google
  else if strContains s "mistral" || strContains s "mixtral" || strContains s "codestral" then
    .mistral
  else if strContains s "llama" || strStartsWith s "meta" then .metaAi
  else .other

/-! ## Lanes and aliases -/

/-- The pricing lane of a call. -/
inductive PricingMode where
  | standard
  | batch
  | flex
  deriving DecidableEq

namespace PricingMode

/-- `PricingMode::parse`. -/
def parse (s : String) : PricingMode :=
  let s := toAsciiLowercase (strTrim s)
  if s == "batch" then batch else if s == "flex" || s == "priority" then flex else standard

/-- The lane a call's metadata or tags ask for. -/
def fromHints (metadata : Json) (tags : List String) : PricingMode :=
  match metadata.getStr "pricing_mode" with
  | some m => parse m
  | none =>
    if tags.any (· == "batch") then batch
    else if tags.any fun t => t == "flex" || t == "priority" then flex
    else standard

/-- The key suffix of a lane's rate. -/
def suffix : PricingMode → Option String
  | standard => none
  | batch => some "@batch"
  | flex => some "@flex"

end PricingMode

/-- `LlmEvent::pricing_mode`. -/
def LlmEvent.pricingMode (ev : LlmEvent) : PricingMode := .fromHints ev.metadata ev.tags

/-- Declared aliases: `alias` or `provider/alias` to the canonical model. -/
abbrev AliasTable := List (String × String)

/-- A qualified alias wins over a bare one. -/
def AliasTable.resolve (t : AliasTable) (provider model : String) : Option String :=
  (t.lookup (provider ++ "/" ++ model)).or (t.lookup model)

/-- `ModelId::with_aliases`: the dated spelling is tried first. -/
def ModelId.withAliases (id : ModelId) (aliases : AliasTable) : ModelId :=
  let provider := id.provider.asStr
  let undated : ModelId :=
    match aliases.resolve provider id.family with
    | some target => { id with family := target }
    | none => id
  match id.variant with
  | none => undated
  | some v =>
    match aliases.resolve provider (id.family ++ "-" ++ v) with
    | some target => { id with family := target, variant := none }
    | none => undated

/-! ## Rates -/

/-- Dollars per million tokens. -/
structure ModelPrice where
  inputPerMtok : ℚ
  outputPerMtok : ℚ
  cachedInputPerMtok : Option ℚ := none
  deriving DecidableEq

/-- The price book: its rows and the declared aliases. -/
structure PriceBook where
  entries : List (String × ModelPrice) := []
  aliases : AliasTable := []

namespace PriceBook

/-- `PriceBook::key`. -/
def key (provider model : String) : String := provider ++ "/" ++ model

/-- The key of a base row and the threshold of its tier, when `key` names a tier. -/
def splitTier (key : String) : Option (String × Nat) :=
  let cs := key.toList
  let marker := "@in>".toList
  -- `rsplit_once`: the last occurrence of the marker
  match ((List.range (cs.length + 1)).reverse.find? fun i => marker.isPrefixOf (cs.drop i)) with
  | none => none
  | some i =>
    let digits := match cs.drop (i + 4) with
      | '+' :: rest => rest
      | rest => rest
    if digits.isEmpty || !digits.all Char.isDigit then none
    else
      let n := digits.foldl (fun n c => 10 * n + (c.toNat - 48)) 0
      if n < 2 ^ 64 then some (String.ofList (cs.take i), n) else none

/-- The tiers of `base`, highest threshold first. -/
def tiers (book : PriceBook) (base : String) : List (Nat × String) :=
  (book.entries.filterMap fun kv =>
    match splitTier kv.1 with
    | some (b, n) => if b == base then some (n, kv.1) else none
    | none => none).mergeSort fun a b => decide (b.1 ≤ a.1)

/-- The `(provider, model)` keys a lookup tries, in order, each once. -/
def candidates (book : PriceBook) (provider model : String) : List (String × String) :=
  let id := canonicalize provider model
  let aliased := id.withAliases book.aliases
  let family := familyOf aliased.provider.asStr
  let all := [(provider, model), (id.provider.asStr, id.family),
      (aliased.provider.asStr, aliased.family)] ++
    if family.isKnown then [(family.asStr, aliased.family)] else []
  all.foldl (fun out pair => if pair ∈ out then out else out ++ [pair]) []

/-- `PriceBook::resolve_exact`: the lane's rate, else the tier's, else the base rate. -/
def resolveExact (book : PriceBook) (provider model : String) (inputTokens : UInt64)
    (mode : PricingMode) : Option ModelPrice :=
  let lane := mode.suffix.bind fun suffix => book.entries.lookup (key provider (model ++ suffix))
  let base := key provider model
  let tier := ((book.tiers base).find? fun t => decide (t.1 < inputTokens.toNat)).bind fun t =>
    book.entries.lookup t.2
  lane.or (tier.or (book.entries.lookup base))

/-- `PriceBook::resolve`: a lane written into the model name counts as the lane asked for. -/
def resolve (book : PriceBook) (provider model : String) (inputTokens : UInt64)
    (mode : PricingMode) : Option ModelPrice :=
  let mode := match (canonicalize provider model).lane, mode with
    | some l, .standard => .parse l
    | _, mode => mode
  (book.candidates provider model).findSome? fun pm =>
    book.resolveExact pm.1 pm.2 inputTokens mode

/-- `PriceBook::cost_usd_mode`. A usage record whose cached part exceeds its input has no price. -/
def costUsdMode (book : PriceBook) (provider model : String) (usage : TokenUsage)
    (mode : PricingMode) : Option ℚ := do
  let billableInput ← usage.billableInput
  let p ← book.resolve provider model usage.input mode
  let perTok (tokens : UInt64) (rate : ℚ) : ℚ := tokens.toNat * rate / 1000000
  return perTok billableInput p.inputPerMtok + perTok usage.output p.outputPerMtok +
    perTok usage.cachedTokens (p.cachedInputPerMtok.getD p.inputPerMtok)

/-- Every rate of the book is nonnegative. -/
def RatesNonneg (book : PriceBook) : Prop :=
  ∀ kv ∈ book.entries, 0 ≤ kv.2.inputPerMtok ∧ 0 ≤ kv.2.outputPerMtok ∧
    ∀ r ∈ kv.2.cachedInputPerMtok, 0 ≤ r

end PriceBook

/-- `LlmEvent::ensure_cost`: a cost that is not there is filled from the book, if it can be. -/
def LlmEvent.ensureCost (ev : LlmEvent) (prices : PriceBook) : LlmEvent :=
  match ev.costUsd with
  | some _ => ev
  | none =>
    { ev with
      costUsd := prices.costUsdMode ev.provider.asStr ev.model ev.usage ev.pricingMode }

example :
    ({ entries := [("openai/gpt-4o", { inputPerMtok := 2, outputPerMtok := 4 }),
        ("openai/gpt-4o@batch", { inputPerMtok := 1, outputPerMtok := 2 })] } : PriceBook).costUsdMode
      "Azure" "gpt-4o-2024-08-06" { input := 1000000, output := 1000000 } .batch = some 3 := by
  decide +kernel

end LightTrack
