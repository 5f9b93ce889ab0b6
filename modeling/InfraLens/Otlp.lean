import InfraLens.LibMap
import InfraLens.LibText
import InfraLens.Model
import Mathlib.Data.String.Basic

/-! OTLP messages as the protobuf decoder gives them, and how the normalizer (normalizer.rs) turns
them into records. Fields that nothing reads are left out. A map is kept in the order of its
keys: the order a hash map has of its own is not part of its value. -/
namespace InfraLens.Otlp
open LibBincode LibMap Model

scoped instance : LinearOrder Str :=
  inferInstanceAs (LinearOrder {s : String // s.toByteArray.size < 2 ^ 64})

/-! ### Messages -/

/-- `AnyValue`; a key-value list has keys whose values may be absent. -/
inductive ProtoAnyValue where
  | unset
  | stringValue (s : Str)
  | boolValue (b : Bool)
  | intValue (i : Int64)
  | doubleValue (d : F64)
  | arrayValue (values : List ProtoAnyValue)
  | kvlistValue (values : List (Str × Option ProtoAnyValue))
  | bytesValue (b : Vec UInt8)

abbrev KeyValue := Str × Option ProtoAnyValue

structure ProtoScope where
  name : Str
  version : Str
  attributes : Vec KeyValue

structure Resource where
  attributes : Vec KeyValue

structure ScopeItems (α : Type) where
  scope : Option ProtoScope
  items : List α
  schemaUrl : Str

structure ResourceItems (α : Type) where
  resource : Option Resource
  scopes : List (ScopeItems α)

structure ProtoLogRecord where
  timeUnixNano : UInt64
  observedTimeUnixNano : UInt64
  severityNumber : Int32
  severityText : Str
  body : Option ProtoAnyValue
  attributes : Vec KeyValue
  traceId : Vec UInt8
  spanId : Vec UInt8

inductive NumberValue where
  | asDouble (d : F64)
  | asInt (i : Int64)

structure NumberDataPoint where
  attributes : Vec KeyValue
  startTimeUnixNano : UInt64
  timeUnixNano : UInt64
  value : Option NumberValue

structure HistogramDataPoint where
  attributes : Vec KeyValue
  startTimeUnixNano : UInt64
  timeUnixNano : UInt64
  count : UInt64
  sum : Option F64
  bucketCounts : Vec UInt64
  explicitBounds : Vec F64
  min : Option F64
  max : Option F64

/-- A point of an exponential histogram or of a summary. -/
structure OtherDataPoint where
  attributes : Vec KeyValue
  startTimeUnixNano : UInt64
  timeUnixNano : UInt64
  count : UInt64

inductive MetricData where
  | gauge (dataPoints : List NumberDataPoint)
  | sum (dataPoints : List NumberDataPoint) (aggregationTemporality : Int32) (isMonotonic : Bool)
  | histogram (dataPoints : List HistogramDataPoint) (aggregationTemporality : Int32)
  | exponentialHistogram (dataPoints : List OtherDataPoint) (aggregationTemporality : Int32)
  | summary (dataPoints : List OtherDataPoint)

structure ProtoMetric where
  name : Str
  description : Str
  unit : Str
  data : Option MetricData

structure ProtoEvent where
  timeUnixNano : UInt64
  name : Str
  attributes : Vec KeyValue

structure ProtoLink where
  traceId : Vec UInt8
  spanId : Vec UInt8
  traceState : Str
  attributes : Vec KeyValue

structure ProtoStatus where
  message : Str
  code : Int32

structure ProtoSpan where
  traceId : Vec UInt8
  spanId : Vec UInt8
  parentSpanId : Vec UInt8
  name : Str
  kind : Int32
  startTimeUnixNano : UInt64
  endTimeUnixNano : UInt64
  attributes : Vec KeyValue
  events : Vec ProtoEvent
  links : Vec ProtoLink
  status : Option ProtoStatus

abbrev ResourceLogs := ResourceItems ProtoLogRecord
abbrev ResourceMetrics := ResourceItems ProtoMetric
abbrev ResourceSpans := ResourceItems ProtoSpan

/-! ### Values and attributes -/

mutual

def convertAnyValue : ProtoAnyValue → AnyValue
  | .unset => .string Str.empty
  | .stringValue s => .string s
  | .boolValue b => .bool b
  | .intValue i => .int i
  | .doubleValue d => .double d
  | .bytesValue b => .bytes b
  | .arrayValue values => .array (convertAll values)
  | .kvlistValue values => .map (BTreeMap.ofList (convertPairs values)).entries

def convertAll : List ProtoAnyValue → List AnyValue
  | [] => []
  | v :: vs => convertAnyValue v :: convertAll vs

/-- In a nested list an absent value is the empty string. -/
def convertPairs : List (Str × Option ProtoAnyValue) → List (Str × AnyValue)
  | [] => []
  | (k, some v) :: kvs => (k, convertAnyValue v) :: convertPairs kvs
  | (k, none) :: kvs => (k, .string Str.empty) :: convertPairs kvs

end

def attributeMap (es : List (Str × AnyValue)) (h : es.length < 2 ^ 64) : HashMap Str AnyValue where
  entries := (BTreeMap.ofList es).entries
  nodup := (BTreeMap.ofList es).nodup_keys
  bounded := Nat.lt_of_le_of_lt (BTreeMap.length_ofList_le es) h

/-- An attribute without a value is dropped. -/
def presentEntries (attrs : List KeyValue) : List (Str × AnyValue) :=
  attrs.filterMap fun kv => kv.2.map fun v => (kv.1, convertAnyValue v)

def convertAttrs (attrs : Vec KeyValue) : HashMap Str AnyValue :=
  attributeMap (presentEntries attrs.1)
    (Nat.lt_of_le_of_lt (List.length_filterMap_le _ _) attrs.2)

def defaultScope : InstrumentationScope := ⟨Str.empty, Str.empty, HashMap.empty⟩

def convertScope (scope : Option ProtoScope) : InstrumentationScope :=
  match scope with
  | some s => ⟨s.name, s.version, convertAttrs s.attributes⟩
  | none => defaultScope

def resourceAttrs (resource : Option Resource) : HashMap Str AnyValue :=
  match resource with
  | some r => convertAttrs r.attributes
  | none => HashMap.empty

def bytesToArray (n : Nat) (b : List UInt8) : Option (Bytes n) :=
  if h : b.length = n then some ⟨b, h⟩ else none

def bytesToArray16 (b : Vec UInt8) : Option (Bytes 16) := bytesToArray 16 b.1

def bytesToArray8 (b : Vec UInt8) : Option (Bytes 8) := bytesToArray 8 b.1

/-! ### Records -/

/-- What the records of a scope have in common. -/
structure Context where
  resourceAttributes : HashMap Str AnyValue
  scope : InstrumentationScope
  schemaUrl : Str

/-- The loops over resources, scopes and items: each item with its context. -/
def walk {α : Type} (groups : List (ResourceItems α)) : List (Context × α) :=
  groups.flatMap fun r => r.scopes.flatMap fun s =>
    s.items.map fun x => (⟨resourceAttrs r.resource, convertScope s.scope, s.schemaUrl⟩, x)

def allItems {α : Type} (groups : List (ResourceItems α)) : List α :=
  groups.flatMap fun r => r.scopes.flatMap ScopeItems.items

theorem walk_snd {α : Type} (groups : List (ResourceItems α)) :
    (walk groups).map Prod.snd = allItems groups := by
  simp [walk, allItems, List.map_flatMap, Function.comp_def]

theorem forall_walk {α : Type} (P : α → Prop) (groups : List (ResourceItems α)) :
    (∀ p ∈ walk groups, P p.2) ↔ ∀ x ∈ allItems groups, P x := by
  rw [← walk_snd]
  exact List.forall_mem_map.symm

def normaliseLog (c : Context) (rec : ProtoLogRecord) : LogRecord where
  timestampNs := rec.timeUnixNano
  observedTimestampNs := rec.observedTimeUnixNano
  traceId := bytesToArray16 rec.traceId
  spanId := bytesToArray8 rec.spanId
  severityNumber := rec.severityNumber
  severityText := rec.severityText
  body := rec.body.map convertAnyValue
  attributes := convertAttrs rec.attributes
  resourceAttributes := c.resourceAttributes
  scope := c.scope
  schemaUrl := c.schemaUrl

def normaliseLogs (resourceLogs : List ResourceLogs) : List LogRecord :=
  (walk resourceLogs).map fun p => normaliseLog p.1 p.2

/-- A point of a metric, from the parts that differ between the kinds of metrics. -/
def metricPoint (c : Context) (name description unit : Str) (metricType : MetricType)
    (timestampNs startTimestampNs : UInt64) (valueDouble : Option F64)
    (valueInt : Option Int64) (histogram : Option HistogramData)
    (attributes : HashMap Str AnyValue) : MetricPoint where
  timestampNs := timestampNs
  startTimestampNs := startTimestampNs
  name := name
  description := description
  unit := unit
  metricType := metricType
  valueDouble := valueDouble
  valueInt := valueInt
  histogram := histogram
  attributes := attributes
  resourceAttributes := c.resourceAttributes
  scope := c.scope
  schemaUrl := c.schemaUrl

def NumberDataPoint.double? (dp : NumberDataPoint) : Option F64 :=
  match dp.value with
  | some (.asDouble d) => some d
  | _ => none

def NumberDataPoint.int? (dp : NumberDataPoint) : Option Int64 :=
  match dp.value with
  | some (.asInt i) => some i
  | _ => none

def numberPoint (c : Context) (m : ProtoMetric) (metricType : MetricType)
    (dp : NumberDataPoint) : MetricPoint :=
  metricPoint c m.name m.description m.unit metricType dp.timeUnixNano dp.startTimeUnixNano
    dp.double? dp.int? none (convertAttrs dp.attributes)

def histogramPoint (c : Context) (m : ProtoMetric) (metricType : MetricType)
    (dp : HistogramDataPoint) : MetricPoint :=
  metricPoint c m.name m.description m.unit metricType dp.timeUnixNano dp.startTimeUnixNano
    none none (some ⟨dp.count, dp.sum, dp.min, dp.max, dp.explicitBounds, dp.bucketCounts⟩)
    (convertAttrs dp.attributes)

/-- Exponential histograms and summaries give no point. -/
def normaliseMetric (c : Context) (m : ProtoMetric) : List MetricPoint :=
  match m.data with
  | some (.gauge dataPoints) => dataPoints.map (numberPoint c m .gauge)
  | some (.sum dataPoints aggregationTemporality isMonotonic) =>
    dataPoints.map (numberPoint c m (.sum isMonotonic aggregationTemporality))
  | some (.histogram dataPoints aggregationTemporality) =>
    dataPoints.map (histogramPoint c m (.histogram aggregationTemporality))
  | _ => []

def normaliseMetrics (resourceMetrics : List ResourceMetrics) : List MetricPoint :=
  (walk resourceMetrics).flatMap fun p => normaliseMetric p.1 p.2

def saturatingSub (a b : UInt64) : UInt64 := if a < b then 0 else a - b

def normaliseEvent (e : ProtoEvent) : SpanEvent :=
  ⟨e.timeUnixNano, e.name, convertAttrs e.attributes⟩

/-- A link without proper ids is dropped. -/
def normaliseLink (l : ProtoLink) : Option SpanLink := do
  let traceId ← bytesToArray16 l.traceId
  let spanId ← bytesToArray8 l.spanId
  pure ⟨traceId, spanId, l.traceState, convertAttrs l.attributes⟩

/-- A span without proper ids is dropped. -/
def normaliseSpan (c : Context) (s : ProtoSpan) : Option SpanRecord := do
  let traceId ← bytesToArray16 s.traceId
  let spanId ← bytesToArray8 s.spanId
  pure {
    traceId := traceId
    spanId := spanId
    parentSpanId := bytesToArray8 s.parentSpanId
    name := s.name
    kind := s.kind
    startTimeNs := s.startTimeUnixNano
    endTimeNs := s.endTimeUnixNano
    durationNs := saturatingSub s.endTimeUnixNano s.startTimeUnixNano
    statusCode := (s.status.map ProtoStatus.code).getD 0
    statusMessage := (s.status.map ProtoStatus.message).getD Str.empty
    attributes := convertAttrs s.attributes
    resourceAttributes := c.resourceAttributes
    scope := c.scope
    events := Vec.ofList (s.events.1.map normaliseEvent)
    links := Vec.ofList (s.links.1.filterMap normaliseLink)
    schemaUrl := c.schemaUrl }

def normaliseSpans (resourceSpans : List ResourceSpans) : List SpanRecord :=
  (walk resourceSpans).filterMap fun p => normaliseSpan p.1 p.2

end InfraLens.Otlp
