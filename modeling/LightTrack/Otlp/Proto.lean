import LightTrack.Core.Pricing
import Mathlib.Algebra.Order.Floor.Defs
import Mathlib.Data.Rat.Floor

/-! # The trace envelope

The part of an OTLP/HTTP JSON export that ingest reads, and its flattening to a positional
list of spans, each with the attributes of its resource beneath its own.

What the standard library and `serde_json` make of a text is a parameter.
-/

namespace LightTrack.Otlp

/-- Texts read as values, and numbers written as texts. -/
structure Texts where
  parseI128 : String → Option Int
  parseU64 : String → Option UInt64
  parseF64 : String → Option ℚ
  fromStr : String → Option Json
  f64Text : ℚ → String

/-! ## Values -/

/-- `Num`: a 64-bit integer as JSON writes it. -/
inductive Num where
  | int (i : Int)
  | float (f : ℚ)
  | str (s : String)
  deriving DecidableEq

/-- `f as i128`: towards zero, saturating. -/
def asI128 (f : ℚ) : Int :=
  max (-2 ^ 127) (min (2 ^ 127 - 1) (if 0 ≤ f then ⌊f⌋ else ⌈f⌉))

namespace Num

variable (tx : Texts)

/-- `Num::as_i128` -/
def asI128 : Num → Option Int
  | int i => some i
  | float f => some (Otlp.asI128 f)
  | str s => tx.parseI128 (strTrim s)

/-- `Num::as_u64` -/
def asU64 (n : Num) : Option UInt64 :=
  (n.asI128 tx).bind fun v => if 0 ≤ v ∧ v < 2 ^ 64 then some (.ofNat v.toNat) else none

/-- `Num::as_f64` -/
def asF64 : Num → Option ℚ
  | int i => some i
  | float f => some f
  | str s => tx.parseF64 (strTrim s)

end Num

/-- `AnyValue`: the fields are read in turn, whichever are set. -/
inductive AnyValue where
  | mk (stringValue : Option String) (intValue : Option Num) (doubleValue : Option ℚ)
      (boolValue : Option Bool) (arrayValue : Option (List AnyValue))
      (kvlistValue : Option (List (String × Option AnyValue)))

namespace AnyValue

/-- `as_str` -/
def asStr : AnyValue → Option String
  | mk s _ _ _ _ _ => s

/-- `as_u64`: a stringified number is tolerated. -/
def asU64 (tx : Texts) : AnyValue → Option UInt64
  | mk s i d _ _ _ =>
    match i, d with
    | some n, _ => n.asU64 tx
    | none, some d =>
      if 0 ≤ d then some (.ofNat (min ⌊d⌋ (2 ^ 64 - 1)).toNat) else none
    | none, none => s.bind fun s => tx.parseU64 (strTrim s)

/-- `as_f64` -/
def asF64 (tx : Texts) : AnyValue → Option ℚ
  | mk s i d _ _ _ =>
    match d, i with
    | some d, _ => some d
    | none, some n => n.asF64 tx
    | none, none => s.bind fun s => tx.parseF64 (strTrim s)

/-- Whether a text is worth parsing as JSON. -/
def looksJson (t : String) : Bool := strStartsWith t "\x7b" || strStartsWith t "["

mutual

/-- `to_json`: a string that is itself JSON is parsed. -/
def toJson (tx : Texts) : AnyValue → Json
  | mk (some s) _ _ _ _ _ =>
    if looksJson (strTrim s) then (tx.fromStr (strTrim s)).getD (.str s) else .str s
  | mk none _ _ (some b) _ _ => .bool b
  | mk none _ (some d) none _ _ => .num (.float (tx.f64Text d))
  | mk none (some n) none none _ _ =>
    match n.asI128 tx with
    | some v => if -2 ^ 63 ≤ v ∧ v < 2 ^ 63 then .num (.int v) else .null
    | none => .null
  | mk none none none none (some a) _ => .arr (listToJson tx a)
  | mk none none none none none (some kv) =>
    .obj ((fieldsToJson tx kv).foldl (fun m kv => Json.insertKey kv.1 kv.2 m) [])
  | mk none none none none none none => .null

def listToJson (tx : Texts) : List AnyValue → List Json
  | [] => []
  | v :: vs => v.toJson tx :: listToJson tx vs

/-- The entries in order. -/
def fieldsToJson (tx : Texts) : List (String × Option AnyValue) → List (String × Json)
  | [] => []
  | (k, none) :: kvs => (k, .null) :: fieldsToJson tx kvs
  | (k, some v) :: kvs => (k, v.toJson tx) :: fieldsToJson tx kvs

end

end AnyValue

/-- `KeyValue` -/
structure KeyValue where
  key : String := ""
  value : Option AnyValue := none

/-- `EnumValue` -/
inductive EnumValue where
  | num (n : Int)
  | name (s : String)

/-- `SpanStatus` -/
structure SpanStatus where
  code : Option EnumValue := none
  message : Option String := none

/-- `is_error` -/
def SpanStatus.isError (s : SpanStatus) : Bool :=
  match s.code with
  | some (.num n) => n == 2
  | some (.name s) => toAsciiLowercase s == "status_code_error"
  | none => false

/-- `SpanEvent` -/
structure SpanEvent where
  name : Option String := none
  attributes : List KeyValue := []

/-- `Span` -/
structure Span where
  traceId : Option String := none
  spanId : Option String := none
  parentSpanId : Option String := none
  name : Option String := none
  startTimeUnixNano : Option Num := none
  endTimeUnixNano : Option Num := none
  attributes : List KeyValue := []
  events : List SpanEvent := []
  status : Option SpanStatus := none

/-- `ScopeSpans`, with the name of its scope. -/
structure ScopeSpans where
  scope : Option String := none
  spans : List Span := []

/-- `ResourceSpans`, with the attributes of its resource. -/
structure ResourceSpans where
  resource : Option (List KeyValue) := none
  scopeSpans : List ScopeSpans := []

/-- `ExportTraceServiceRequest` -/
structure ExportTraceServiceRequest where
  resourceSpans : List ResourceSpans := []

/-! ## Flattening -/

/-- Attributes, the newest first: a key is read at its newest value. -/
abbrev Attrs := List (String × AnyValue)

/-- `collect` -/
def collect (kvs : List KeyValue) (into : Attrs) : Attrs :=
  kvs.foldl (fun attrs kv =>
    match kv.value with
    | some v => (kv.key, v) :: attrs
    | none => attrs) into

/-- `FlatSpan` -/
structure FlatSpan where
  span : Span
  scope : Option String := none
  attrs : Attrs := []

namespace FlatSpan

/-- `attr` -/
def attr (fs : FlatSpan) (key : String) : Option AnyValue := fs.attrs.lookup key

/-- `first` -/
def first (fs : FlatSpan) (keys : List String) : Option AnyValue := keys.findSome? fs.attr

end FlatSpan

/-- `flatten` -/
def flatten (req : ExportTraceServiceRequest) : List FlatSpan :=
  req.resourceSpans.flatMap fun rs =>
    let base := collect (rs.resource.getD []) []
    rs.scopeSpans.flatMap fun ss =>
      ss.spans.map fun span => { span, scope := ss.scope, attrs := collect span.attributes base }

end LightTrack.Otlp
