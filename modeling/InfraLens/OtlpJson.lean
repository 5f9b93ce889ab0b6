import InfraLens.LibJson
import InfraLens.Otlp

/-! The decoder of OTLP/JSON requests (json_decoder.rs): it reads the fields it knows from a JSON
value and gives every other field its default. -/
namespace InfraLens.Otlp
open LibBincode LibMap LibText LibJson Model

/-- The double closest to a number below 2^64, ties to even: the exponent goes up with the
mantissa when rounding carries. -/
def doubleOfNat (n : Nat) : Nat :=
  if n = 0 then 0
  else
    let e := n.log2
    if e ≤ 52 then (e + 1022) * 2 ^ 52 + n * 2 ^ (52 - e)
    else
      let unit := 2 ^ (e - 52)
      let q := n / unit
      let r := n % unit
      let up := unit < 2 * r ∨ 2 * r = unit ∧ q % 2 = 1
      (e + 1022) * 2 ^ 52 + if up then q + 1 else q

/-- `as f64` of a 64-bit integer. -/
instance : IntCast F64 where
  intCast i :=
    if i < 0 then ⟨UInt64.ofNat (2 ^ 63 + doubleOfNat i.natAbs)⟩
    else ⟨UInt64.ofNat (doubleOfNat i.natAbs)⟩

abbrev Value := Json F64

/-! ### Values and attributes -/

/-- A number or a string with a number in it. -/
def decodeI64 (v : Value) : Int64 :=
  (v.asI64.or (v.asStr.bind fun s => parseI64 s.toList)).getD 0

def decodeU64 (v : Value) : UInt64 :=
  (v.asU64.or (v.asStr.bind fun s => parseU64 s.toList)).getD 0

def arrayValues (v : Value) : Option (List Value) :=
  (v.get "arrayValue").bind fun av => (av.get "values").bind Json.asArray

theorem sizeOf_arrayValues (v : Value) (vs : List Value) (h : arrayValues v = some vs)
    (w : Value) (hw : w ∈ vs) : sizeOf w < sizeOf v := by
  obtain ⟨av, hav, h⟩ := Option.bind_eq_some_iff.mp h
  obtain ⟨arr, harr, h⟩ := Option.bind_eq_some_iff.mp h
  calc
    sizeOf w < sizeOf arr := arr.sizeOf_asArray vs h w hw
    _ < sizeOf av := av.sizeOf_get _ arr harr
    _ < sizeOf v := v.sizeOf_get _ av hav

/-- The first field that is there and of the right type decides. -/
def decodeAnyValue (v : Value) : AnyValue :=
  match (v.get "stringValue").bind Json.asStr with
  | some s => .string (Str.ofString s)
  | none => match (v.get "boolValue").bind Json.asBool with
    | some b => .bool b
    | none => match v.get "intValue" with
      | some i => .int (decodeI64 i)
      | none => match (v.get "doubleValue").bind Json.asF64 with
        | some d => .double d
        | none => match _h : arrayValues v with
          | some arr => .array (arr.attach.map fun w => decodeAnyValue w.1)
          | none => .string Str.empty
termination_by sizeOf v
decreasing_by exact sizeOf_arrayValues v arr _h w.1 w.2

/-- The map of some entries. No list of entries in memory is too long for it. -/
def collectAttributes (es : List (Str × AnyValue)) : HashMap Str AnyValue :=
  if h : es.length < 2 ^ 64 then attributeMap es h else HashMap.empty

/-- An entry needs a key; a missing value is the empty string. -/
def decodeEntry (kv : Value) : Option (Str × AnyValue) := do
  let key ← (← kv.get "key").asStr
  pure (Str.ofString key, ((kv.get "value").map decodeAnyValue).getD (.string Str.empty))

def decodeAttrs (attrs : Value) : HashMap Str AnyValue :=
  match attrs.asArray with
  | some arr => collectAttributes (arr.filterMap decodeEntry)
  | none => HashMap.empty

/-! ### Fields with their defaults -/

def textField (v : Value) (k : String) : Str :=
  (((v.get k).bind Json.asStr).map Str.ofString).getD Str.empty

def attrsField (v : Value) (k : String) : HashMap Str AnyValue :=
  ((v.get k).map decodeAttrs).getD HashMap.empty

def u64Field (v : Value) (k : String) : UInt64 := ((v.get k).map decodeU64).getD 0

def i32Field (v : Value) (k : String) : Int32 := (((v.get k).bind Json.asI64).getD 0).toInt32

def elements (v : Value) (k : String) : List Value := ((v.get k).bind Json.asArray).getD []

def decodeScope (scope : Option Value) : InstrumentationScope :=
  match scope with
  | some s => ⟨textField s "name", textField s "version", attrsField s "attributes"⟩
  | none => defaultScope

/-! ### Ids -/

/-- A slice of a string that does not start and end between characters. -/
inductive Panic where
  | charBoundary
  deriving DecidableEq

/-- The bytes of a text two by two, each pair a slice of it. -/
def hexPairs : List UInt8 → Except Panic (Option (List UInt8))
  | a :: b :: rest =>
    if isContinuation a || rest.head?.any isContinuation then .error .charBoundary
    else match parseHexU8 [a, b] with
      | none => .ok none
      | some byte => (hexPairs rest).map (Option.map (byte :: ·))
  | _ => .ok (some [])

def hexTo (n : Nat) (s : String) : Except Panic (Option (Bytes n)) :=
  let bytes := utf8 (trim s.toList)
  if bytes.length ≠ 2 * n then .ok none
  else (hexPairs bytes).map fun bs => bs.bind (bytesToArray n)

def hexTo16 (s : String) : Except Panic (Option (Bytes 16)) := hexTo 16 s

def hexTo8 (s : String) : Except Panic (Option (Bytes 8)) := hexTo 8 s

/-- `v.get(k).and_then(Value::as_str).and_then(hex_to)`. -/
def idField {n : Nat} (hexTo : String → Except Panic (Option (Bytes n))) (v : Value)
    (k : String) : Except Panic (Option (Bytes n)) :=
  match (v.get k).bind Json.asStr with
  | some s => hexTo s
  | none => .ok none

/-! ### Requests -/

/-- The loops over resources, scopes and items, under the names of a signal. -/
def decodeWalk (resources scopes items : String) (json : Value) : List (Context × Value) :=
  (elements json resources).flatMap fun r => (elements r scopes).flatMap fun s =>
    (elements s items).map fun x =>
      (⟨((r.get "resource").map fun res => attrsField res "attributes").getD HashMap.empty,
        decodeScope (s.get "scope"), textField s "schemaUrl"⟩, x)

/-- A missing observed time is the time of the record. -/
def decodeLog (c : Context) (rec : Value) : Except Panic LogRecord := do
  let ts := u64Field rec "timeUnixNano"
  let traceId ← idField hexTo16 rec "traceId"
  let spanId ← idField hexTo8 rec "spanId"
  pure {
    timestampNs := ts
    observedTimestampNs := ((rec.get "observedTimeUnixNano").map decodeU64).getD ts
    traceId := traceId
    spanId := spanId
    severityNumber := i32Field rec "severityNumber"
    severityText := textField rec "severityText"
    body := (rec.get "body").map decodeAnyValue
    attributes := attrsField rec "attributes"
    resourceAttributes := c.resourceAttributes
    scope := c.scope
    schemaUrl := c.schemaUrl }

def decodeLogs (json : Value) : Except Panic (List LogRecord) :=
  (decodeWalk "resourceLogs" "scopeLogs" "logRecords" json).mapM fun p => decodeLog p.1 p.2

def decodeNumberPoint (c : Context) (m : Value) (metricType : MetricType) (dp : Value) :
    MetricPoint :=
  metricPoint c (textField m "name") (textField m "description") (textField m "unit") metricType
    (u64Field dp "timeUnixNano") (u64Field dp "startTimeUnixNano")
    ((dp.get "asDouble").bind Json.asF64) ((dp.get "asInt").bind Json.asI64) none
    (attrsField dp "attributes")

def decodeGauge (c : Context) (m gauge : Value) : List MetricPoint :=
  (elements gauge "dataPoints").map (decodeNumberPoint c m .gauge)

def decodeSum (c : Context) (m sum : Value) : List MetricPoint :=
  let isMonotonic := ((sum.get "isMonotonic").bind Json.asBool).getD false
  let temporality := i32Field sum "aggregationTemporality"
  (elements sum "dataPoints").map (decodeNumberPoint c m (.sum isMonotonic temporality))

/-- Only gauges and sums are looked for. -/
def decodeMetric (c : Context) (m : Value) : List MetricPoint :=
  ((m.get "gauge").map (decodeGauge c m)).getD [] ++ ((m.get "sum").map (decodeSum c m)).getD []

def decodeMetrics (json : Value) : List MetricPoint :=
  (decodeWalk "resourceMetrics" "scopeMetrics" "metrics" json).flatMap fun p =>
    decodeMetric p.1 p.2

def decodeEvent (e : Value) : SpanEvent :=
  ⟨u64Field e "timeUnixNano", textField e "name", attrsField e "attributes"⟩

def decodeLink (l : Value) : Except Panic (Option SpanLink) := do
  let some traceId ← idField hexTo16 l "traceId" | pure none
  let some spanId ← idField hexTo8 l "spanId" | pure none
  pure (some ⟨traceId, spanId, textField l "traceState", attrsField l "attributes"⟩)

def decodeSpan (c : Context) (span : Value) : Except Panic (Option SpanRecord) := do
  let some traceId ← idField hexTo16 span "traceId" | pure none
  let some spanId ← idField hexTo8 span "spanId" | pure none
  let startNs := u64Field span "startTimeUnixNano"
  let endNs := u64Field span "endTimeUnixNano"
  let parentSpanId ← idField hexTo8 span "parentSpanId"
  let links ← (elements span "links").mapM decodeLink
  pure (some {
    traceId := traceId
    spanId := spanId
    parentSpanId := parentSpanId
    name := textField span "name"
    kind := i32Field span "kind"
    startTimeNs := startNs
    endTimeNs := endNs
    durationNs := saturatingSub endNs startNs
    statusCode :=
      (((span.get "status").bind fun s => (s.get "code").bind Json.asI64).getD 0).toInt32
    statusMessage :=
      (((span.get "status").bind fun s => (s.get "message").bind Json.asStr).map
        Str.ofString).getD Str.empty
    attributes := attrsField span "attributes"
    resourceAttributes := c.resourceAttributes
    scope := c.scope
    events := Vec.ofList ((elements span "events").map decodeEvent)
    links := Vec.ofList links.reduceOption
    schemaUrl := c.schemaUrl })

def decodeSpans (json : Value) : Except Panic (List SpanRecord) := do
  let spans ← (decodeWalk "resourceSpans" "scopeSpans" "spans" json).mapM fun p =>
    decodeSpan p.1 p.2
  pure spans.reduceOption

end InfraLens.Otlp
