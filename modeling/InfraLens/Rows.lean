import InfraLens.RecordCodec

/-! The rows of the parquet files (sstable.rs): what the batch builders put into the
columns for each record. The JSON texts serde_json writes are parameters. -/
namespace InfraLens.Rows
open LibBincode Model

/-- `serde_json::to_string(..).ok()` at the types the builders use it on. -/
structure Json where
  value : AnyValue → Option Str
  map : HashMap Str AnyValue → Option Str
  events : Vec SpanEvent → Option Str
  links : Vec SpanLink → Option Str

/-- Texts for records without attribute values. -/
def noJson : Json := ⟨fun _ => none, fun _ => none, fun _ => none, fun _ => none⟩

/-- An empty text is stored as null. -/
def textOpt (s : Str) : Option Str := if s.1.isEmpty then none else some s

variable (json : Json)

def jsonOpt (v : Option AnyValue) : Option Str := v.bind json.value

def jsonMap (m : HashMap Str AnyValue) : Option Str :=
  if m.entries.isEmpty then none else json.map m

structure LogRow where
  timestampNs : UInt64
  observedTimestampNs : UInt64
  traceId : Option (Bytes 16)
  spanId : Option (Bytes 8)
  severityNumber : Int32
  severityText : Option Str
  body : Option Str
  attributes : Option Str
  resourceAttributes : Option Str
  scopeName : Option Str
  scopeVersion : Option Str
  schemaUrl : Option Str

/-- One iteration of `build_log_batch`. -/
def logRow (r : LogRecord) : LogRow where
  timestampNs := r.timestampNs
  observedTimestampNs := r.observedTimestampNs
  traceId := r.traceId
  spanId := r.spanId
  severityNumber := r.severityNumber
  severityText := textOpt r.severityText
  body := jsonOpt json r.body
  attributes := jsonMap json r.attributes
  resourceAttributes := jsonMap json r.resourceAttributes
  scopeName := textOpt r.scope.name
  scopeVersion := textOpt r.scope.version
  schemaUrl := textOpt r.schemaUrl

def metricTypeId : MetricType → Int8
  | .gauge => 0
  | .sum _ _ => 1
  | .histogram _ => 2
  | .exponentialHistogram _ => 3
  | .summary => 4

structure MetricRow where
  timestampNs : UInt64
  startTimestampNs : UInt64
  name : Str
  description : Option Str
  unit : Option Str
  metricType : Int8
  valueDouble : Option F64
  valueInt : Option Int64
  histogramCount : Option UInt64
  histogramSum : Option F64
  histogramBounds : Option (List UInt8)
  histogramCounts : Option (List UInt8)
  attributes : Option Str
  resourceAttributes : Option Str
  scopeName : Option Str
  scopeVersion : Option Str
  schemaUrl : Option Str

/-- One iteration of `build_metric_batch`. -/
def metricRow (r : MetricPoint) : MetricRow where
  timestampNs := r.timestampNs
  startTimestampNs := r.startTimestampNs
  name := r.name
  description := textOpt r.description
  unit := textOpt r.unit
  metricType := metricTypeId r.metricType
  valueDouble := r.valueDouble
  valueInt := r.valueInt
  histogramCount := r.histogram.map (·.count)
  histogramSum := r.histogram.bind (·.sum)
  histogramBounds := r.histogram.map fun h => RecordCodec.f64.vec.encode h.explicitBounds
  histogramCounts := r.histogram.map fun h => u64.vec.encode h.bucketCounts
  attributes := jsonMap json r.attributes
  resourceAttributes := jsonMap json r.resourceAttributes
  scopeName := textOpt r.scope.name
  scopeVersion := textOpt r.scope.version
  schemaUrl := textOpt r.schemaUrl

structure SpanRow where
  traceId : Bytes 16
  spanId : Bytes 8
  parentSpanId : Option (Bytes 8)
  name : Str
  kind : Int32
  startTimeNs : UInt64
  endTimeNs : UInt64
  durationNs : UInt64
  statusCode : Int32
  statusMessage : Option Str
  attributes : Option Str
  resourceAttributes : Option Str
  scopeName : Option Str
  scopeVersion : Option Str
  events : Option Str
  links : Option Str
  schemaUrl : Option Str

/-- One iteration of `build_span_batch`. -/
def spanRow (r : SpanRecord) : SpanRow where
  traceId := r.traceId
  spanId := r.spanId
  parentSpanId := r.parentSpanId
  name := r.name
  kind := r.kind
  startTimeNs := r.startTimeNs
  endTimeNs := r.endTimeNs
  durationNs := r.durationNs
  statusCode := r.statusCode
  statusMessage := textOpt r.statusMessage
  attributes := jsonMap json r.attributes
  resourceAttributes := jsonMap json r.resourceAttributes
  scopeName := textOpt r.scope.name
  scopeVersion := textOpt r.scope.version
  events := json.events r.events
  links := json.links r.links
  schemaUrl := textOpt r.schemaUrl

inductive Row where
  | log (r : LogRow)
  | metric (r : MetricRow)
  | span (r : SpanRow)

def row : Record → Row
  | .log r => .log (logRow json r)
  | .metric r => .metric (metricRow json r)
  | .span r => .span (spanRow json r)

end InfraLens.Rows
