import InfraLens.Model

/-! The bincode bytes of the records: what serde's derived implementations write
and what the derived readers make of it. -/
namespace InfraLens.RecordCodec
open LibBincode Model

def f64 : Codec F64 := u64.via F64.mk F64.bits (fun _ => rfl)

/- An untagged enum is written as its payload, with no variant index. -/
mutual
def anyValueBytes : AnyValue → List UInt8
  | .string s => str.encode s
  | .bool b => boolean.encode b
  | .int i => i64.encode i
  | .double d => f64.encode d
  | .bytes b => u8.vec.encode b
  | .array vs => u64.encode (UInt64.ofNat vs.length) ++ arrayBytes vs
  | .map es => u64.encode (UInt64.ofNat es.length) ++ mapBytes es

def arrayBytes : List AnyValue → List UInt8
  | [] => []
  | v :: vs => anyValueBytes v ++ arrayBytes vs

def mapBytes : List (Str × AnyValue) → List UInt8
  | [] => []
  | (k, v) :: es => str.encode k ++ anyValueBytes v ++ mapBytes es
end

/-- The derived reader of an untagged enum starts with `deserialize_any`, which a
format that is not self-describing always refuses. -/
def anyValue : Codec AnyValue where
  encode := anyValueBytes
  decode _ := none
  Readable _ := False
  decode_readable := by
    intro a rest h
    exact h.elim
  decode_unreadable := by
    intro a rest _
    rfl

def attributes : Codec (HashMap Str AnyValue) := str.hashMap anyValue

theorem attributes_readable (m : HashMap Str AnyValue) :
    attributes.Readable m ↔ m.entries = [] := by
  constructor
  · intro h
    cases he : m.entries with
    | nil => rfl
    | cons e es => exact (h e (by simp [he])).2.elim
  · intro h e he
    simp [h] at he

def instrumentationScope : Codec InstrumentationScope :=
  (str.pair (str.pair attributes)).via
    (fun (name, version, attrs) => ⟨name, version, attrs⟩)
    (fun s => (s.name, s.version, s.attributes)) (fun _ => rfl)

def logRecord : Codec LogRecord :=
  (u64.pair <| u64.pair <| (bytes 16).option.pair <| (bytes 8).option.pair <| i32.pair <|
    str.pair <| anyValue.option.pair <| attributes.pair <| attributes.pair <|
    instrumentationScope.pair str).via
    (fun (ts, obs, tid, sid, num, text, body, attrs, res, scope, url) =>
      ⟨ts, obs, tid, sid, num, text, body, attrs, res, scope, url⟩)
    (fun r => (r.timestampNs, r.observedTimestampNs, r.traceId, r.spanId, r.severityNumber,
      r.severityText, r.body, r.attributes, r.resourceAttributes, r.scope, r.schemaUrl))
    (fun _ => rfl)

/- The five variants of `MetricType` and their fields, by variant index. -/
def MetricFields : Fin 5 → Type
  | 0 => Unit
  | 1 => Bool × Int32
  | 2 => Int32
  | 3 => Int32
  | 4 => Unit

def metricFields : (k : Fin 5) → Codec (MetricFields k)
  | 0 => unit
  | 1 => boolean.pair i32
  | 2 => i32
  | 3 => i32
  | 4 => unit

def MetricType.ofFields : (Σ k, MetricFields k) → MetricType
  | ⟨0, _⟩ => .gauge
  | ⟨1, (m, t)⟩ => .sum m t
  | ⟨2, t⟩ => .histogram t
  | ⟨3, t⟩ => .exponentialHistogram t
  | ⟨4, _⟩ => .summary

def MetricType.toFields : MetricType → Σ k, MetricFields k
  | .gauge => ⟨0, ()⟩
  | .sum m t => ⟨1, (m, t)⟩
  | .histogram t => ⟨2, t⟩
  | .exponentialHistogram t => ⟨3, t⟩
  | .summary => ⟨4, ()⟩

def metricType : Codec MetricType :=
  (Codec.variant (by decide) metricFields).via MetricType.ofFields MetricType.toFields
    (fun m => by cases m <;> rfl)

def histogramData : Codec HistogramData :=
  (u64.pair <| f64.option.pair <| f64.option.pair <| f64.option.pair <|
    f64.vec.pair u64.vec).via
    (fun (count, sum, min, max, bounds, counts) => ⟨count, sum, min, max, bounds, counts⟩)
    (fun h => (h.count, h.sum, h.min, h.max, h.explicitBounds, h.bucketCounts)) (fun _ => rfl)

def metricPoint : Codec MetricPoint :=
  (u64.pair <| u64.pair <| str.pair <| str.pair <| str.pair <| metricType.pair <|
    f64.option.pair <| i64.option.pair <| histogramData.option.pair <| attributes.pair <|
    attributes.pair <| instrumentationScope.pair str).via
    (fun (ts, start, name, desc, unit, mt, vd, vi, hist, attrs, res, scope, url) =>
      ⟨ts, start, name, desc, unit, mt, vd, vi, hist, attrs, res, scope, url⟩)
    (fun r => (r.timestampNs, r.startTimestampNs, r.name, r.description, r.unit, r.metricType,
      r.valueDouble, r.valueInt, r.histogram, r.attributes, r.resourceAttributes, r.scope,
      r.schemaUrl))
    (fun _ => rfl)

def spanEvent : Codec SpanEvent :=
  (u64.pair <| str.pair attributes).via
    (fun (ts, name, attrs) => ⟨ts, name, attrs⟩)
    (fun e => (e.timestampNs, e.name, e.attributes)) (fun _ => rfl)

def spanLink : Codec SpanLink :=
  ((bytes 16).pair <| (bytes 8).pair <| str.pair attributes).via
    (fun (tid, sid, state, attrs) => ⟨tid, sid, state, attrs⟩)
    (fun l => (l.traceId, l.spanId, l.traceState, l.attributes)) (fun _ => rfl)

def spanRecord : Codec SpanRecord :=
  ((bytes 16).pair <| (bytes 8).pair <| (bytes 8).option.pair <| str.pair <| i32.pair <|
    u64.pair <| u64.pair <| u64.pair <| i32.pair <| str.pair <| attributes.pair <|
    attributes.pair <| instrumentationScope.pair <| spanEvent.vec.pair <|
    spanLink.vec.pair str).via
    (fun (tid, sid, parent, name, kind, start, stop, dur, code, msg, attrs, res, scope,
        events, links, url) =>
      ⟨tid, sid, parent, name, kind, start, stop, dur, code, msg, attrs, res, scope,
        events, links, url⟩)
    (fun r => (r.traceId, r.spanId, r.parentSpanId, r.name, r.kind, r.startTimeNs, r.endTimeNs,
      r.durationNs, r.statusCode, r.statusMessage, r.attributes, r.resourceAttributes, r.scope,
      r.events, r.links, r.schemaUrl))
    (fun _ => rfl)

theorem f64_readable (d : F64) : f64.Readable d := trivial

theorem instrumentationScope_readable (s : InstrumentationScope) :
    instrumentationScope.Readable s ↔ s.NoAnyValue := by
  simp [instrumentationScope, attributes_readable, InstrumentationScope.NoAnyValue]

theorem metricType_readable (m : MetricType) : metricType.Readable m := by
  cases m with
  | gauge => exact trivial
  | sum mono t => exact ⟨trivial, trivial⟩
  | histogram t => exact trivial
  | exponentialHistogram t => exact trivial
  | summary => exact trivial

theorem histogramData_readable (h : HistogramData) : histogramData.Readable h := by
  simp [histogramData, f64_readable]

theorem logRecord_readable (r : LogRecord) : logRecord.Readable r ↔ r.NoAnyValue := by
  have hbody : (∀ a ∈ r.body, anyValue.Readable a) ↔ r.body = none := by
    cases r.body <;> simp [anyValue]
  simp only [logRecord, via_readable, pair_readable, option_readable, hbody, attributes_readable,
    instrumentationScope_readable, LogRecord.NoAnyValue, u64_readable, i32_readable,
    bytes_readable, str_readable, implies_true, true_and, and_true]

theorem metricPoint_readable (r : MetricPoint) : metricPoint.Readable r ↔ r.NoAnyValue := by
  simp [metricPoint, metricType_readable, f64_readable, histogramData_readable,
    attributes_readable, instrumentationScope_readable, MetricPoint.NoAnyValue]

theorem spanRecord_readable (r : SpanRecord) : spanRecord.Readable r ↔ r.NoAnyValue := by
  simp [spanRecord, spanEvent, spanLink, attributes_readable, instrumentationScope_readable,
    SpanRecord.NoAnyValue]

def serialize : Record → List UInt8
  | .log r => logRecord.encode r
  | .metric r => metricPoint.encode r
  | .span r => spanRecord.encode r

/-- `bincode::deserialize` at the record type of a signal; trailing bytes are ignored. -/
def deserialize (sig : SignalType) (data : List UInt8) : Option Record :=
  match sig with
  | .log => (logRecord.decode data).map fun p => .log p.1
  | .metric => (metricPoint.decode data).map fun p => .metric p.1
  | .span => (spanRecord.decode data).map fun p => .span p.1

theorem deserialize_serialize (r : Record) (h : r.NoAnyValue) :
    deserialize r.signalType (serialize r) = some r := by
  cases r with
  | log r =>
    have hd := logRecord.decode_readable r [] ((logRecord_readable r).mpr h)
    rw [List.append_nil] at hd
    simp [deserialize, serialize, Record.signalType, hd]
  | metric r =>
    have hd := metricPoint.decode_readable r [] ((metricPoint_readable r).mpr h)
    rw [List.append_nil] at hd
    simp [deserialize, serialize, Record.signalType, hd]
  | span r =>
    have hd := spanRecord.decode_readable r [] ((spanRecord_readable r).mpr h)
    rw [List.append_nil] at hd
    simp [deserialize, serialize, Record.signalType, hd]

/-- Any attribute value in it makes the whole record unreadable. -/
theorem deserialize_serialize_none (r : Record) (h : ¬ r.NoAnyValue) :
    deserialize r.signalType (serialize r) = none := by
  cases r with
  | log r =>
    have hd := logRecord.decode_unreadable r [] (fun hr => h ((logRecord_readable r).mp hr))
    rw [List.append_nil] at hd
    simp [deserialize, serialize, Record.signalType, hd]
  | metric r =>
    have hd := metricPoint.decode_unreadable r [] (fun hr => h ((metricPoint_readable r).mp hr))
    rw [List.append_nil] at hd
    simp [deserialize, serialize, Record.signalType, hd]
  | span r =>
    have hd := spanRecord.decode_unreadable r [] (fun hr => h ((spanRecord_readable r).mp hr))
    rw [List.append_nil] at hd
    simp [deserialize, serialize, Record.signalType, hd]

end InfraLens.RecordCodec
