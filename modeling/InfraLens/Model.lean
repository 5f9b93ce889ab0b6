import InfraLens.LibBincode
import Mathlib.Data.Fintype.Basic

/-! The normalised records of the three signal types, as the ingest and storage
layers pass them on (infralens-common, model.rs). -/
namespace InfraLens.Model
open LibBincode

inductive SignalType where
  | log
  | metric
  | span
  deriving DecidableEq, Repr

def SignalType.toU8 : SignalType → UInt8
  | .log => 0
  | .metric => 1
  | .span => 2

theorem SignalType.toU8_inj (s t : SignalType) (h : s.toU8 = t.toU8) : s = t := by
  cases s <;> cases t <;> first | rfl | (exact absurd h (by decide))

instance : Fintype SignalType where
  elems := {.log, .metric, .span}
  complete := by
    intro sig
    cases sig <;> decide

/-- A double known by its bit pattern: it is stored and moved, never computed with. -/
structure F64 where
  bits : UInt64
  deriving DecidableEq

/-- The polymorphic attribute value, an enum that serde writes untagged. A nested
map is given by its entries in iteration order. -/
inductive AnyValue where
  | string (s : Str)
  | bool (b : Bool)
  | int (i : Int64)
  | double (d : F64)
  | bytes (b : Vec UInt8)
  | array (vs : List AnyValue)
  | map (es : List (Str × AnyValue))

structure InstrumentationScope where
  name : Str
  version : Str
  attributes : HashMap Str AnyValue

structure LogRecord where
  timestampNs : UInt64
  observedTimestampNs : UInt64
  traceId : Option (Bytes 16)
  spanId : Option (Bytes 8)
  severityNumber : Int32
  severityText : Str
  body : Option AnyValue
  attributes : HashMap Str AnyValue
  resourceAttributes : HashMap Str AnyValue
  scope : InstrumentationScope
  schemaUrl : Str

inductive MetricType where
  | gauge
  | sum (isMonotonic : Bool) (temporality : Int32)
  | histogram (temporality : Int32)
  | exponentialHistogram (temporality : Int32)
  | summary

structure HistogramData where
  count : UInt64
  sum : Option F64
  min : Option F64
  max : Option F64
  explicitBounds : Vec F64
  bucketCounts : Vec UInt64

structure MetricPoint where
  timestampNs : UInt64
  startTimestampNs : UInt64
  name : Str
  description : Str
  unit : Str
  metricType : MetricType
  valueDouble : Option F64
  valueInt : Option Int64
  histogram : Option HistogramData
  attributes : HashMap Str AnyValue
  resourceAttributes : HashMap Str AnyValue
  scope : InstrumentationScope
  schemaUrl : Str

structure SpanEvent where
  timestampNs : UInt64
  name : Str
  attributes : HashMap Str AnyValue

structure SpanLink where
  traceId : Bytes 16
  spanId : Bytes 8
  traceState : Str
  attributes : HashMap Str AnyValue

structure SpanRecord where
  traceId : Bytes 16
  spanId : Bytes 8
  parentSpanId : Option (Bytes 8)
  name : Str
  kind : Int32
  startTimeNs : UInt64
  endTimeNs : UInt64
  durationNs : UInt64
  statusCode : Int32
  statusMessage : Str
  attributes : HashMap Str AnyValue
  resourceAttributes : HashMap Str AnyValue
  scope : InstrumentationScope
  events : Vec SpanEvent
  links : Vec SpanLink
  schemaUrl : Str

/-- A record of any of the three signals. -/
inductive Record where
  | log (r : LogRecord)
  | metric (r : MetricPoint)
  | span (r : SpanRecord)

def Record.signalType : Record → SignalType
  | .log _ => .log
  | .metric _ => .metric
  | .span _ => .span

/-- The time a record is routed and sorted by: the start time for spans. -/
def Record.timestampNs : Record → UInt64
  | .log r => r.timestampNs
  | .metric r => r.timestampNs
  | .span r => r.startTimeNs

inductive IngestBatch where
  | logs (rs : List LogRecord)
  | metrics (rs : List MetricPoint)
  | spans (rs : List SpanRecord)

def IngestBatch.records : IngestBatch → List Record
  | .logs rs => rs.map .log
  | .metrics rs => rs.map .metric
  | .spans rs => rs.map .span

/-! Where an attribute value can sit inside a record. -/

def InstrumentationScope.NoAnyValue (s : InstrumentationScope) : Prop :=
  s.attributes.entries = []

def LogRecord.NoAnyValue (r : LogRecord) : Prop :=
  r.body = none ∧ r.attributes.entries = [] ∧ r.resourceAttributes.entries = [] ∧
    r.scope.NoAnyValue

def MetricPoint.NoAnyValue (r : MetricPoint) : Prop :=
  r.attributes.entries = [] ∧ r.resourceAttributes.entries = [] ∧ r.scope.NoAnyValue

def SpanRecord.NoAnyValue (r : SpanRecord) : Prop :=
  r.attributes.entries = [] ∧ r.resourceAttributes.entries = [] ∧ r.scope.NoAnyValue ∧
    (∀ e ∈ r.events.1, e.attributes.entries = []) ∧ ∀ l ∈ r.links.1, l.attributes.entries = []

/-- No attribute value anywhere in the record. -/
def Record.NoAnyValue : Record → Prop
  | .log r => r.NoAnyValue
  | .metric r => r.NoAnyValue
  | .span r => r.NoAnyValue

/-- A log record with nothing but a time and a body. -/
def LogRecord.bare (timestampNs : UInt64) (body : Option AnyValue) : LogRecord where
  timestampNs := timestampNs
  observedTimestampNs := timestampNs
  traceId := none
  spanId := none
  severityNumber := 0
  severityText := Str.empty
  body := body
  attributes := HashMap.empty
  resourceAttributes := HashMap.empty
  scope := ⟨Str.empty, Str.empty, HashMap.empty⟩
  schemaUrl := Str.empty

theorem LogRecord.bare_noAnyValue (timestampNs : UInt64) :
    (Record.log (LogRecord.bare timestampNs none)).NoAnyValue := ⟨rfl, rfl, rfl, rfl⟩

instance (r : Record) : Decidable r.NoAnyValue :=
  match r with
  | .log r => inferInstanceAs (Decidable (r.body = none ∧ r.attributes.entries = [] ∧
      r.resourceAttributes.entries = [] ∧ r.scope.attributes.entries = []))
  | .metric r => inferInstanceAs (Decidable (r.attributes.entries = [] ∧
      r.resourceAttributes.entries = [] ∧ r.scope.attributes.entries = []))
  | .span r => inferInstanceAs (Decidable (r.attributes.entries = [] ∧
      r.resourceAttributes.entries = [] ∧ r.scope.attributes.entries = [] ∧
      (∀ e ∈ r.events.1, e.attributes.entries = []) ∧ ∀ l ∈ r.links.1, l.attributes.entries = []))

end InfraLens.Model
