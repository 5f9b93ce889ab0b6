import InfraLens.OtlpJson

/-! The OTLP/JSON encoding of the messages: camelCase names, 64-bit integers as decimal strings,
bytes as base64 but ids as lower-case hex, enums as numbers, absent fields left out. Messages
leave out fields with default values; values and attributes are encoded either way. -/
namespace InfraLens.Otlp
open LibBincode LibMap LibText LibJson Model

def isFinite (x : F64) : Bool := x.bits.toNat / 2 ^ 52 % 2 ^ 11 ≠ 2047

/-- JSON has no numbers for infinities and NaNs. -/
def encodeDouble (x : F64) : Value :=
  if isFinite x then .number (.float x)
  else if x.bits.toNat % 2 ^ 52 ≠ 0 then .string "NaN"
  else if x.bits.toNat < 2 ^ 63 then .string "Infinity"
  else .string "-Infinity"

def encodeI64 (i : Int64) : Value := .string (String.ofList (decimalInt i.toInt))

def encodeU64 (n : UInt64) : Value := .string (String.ofList (decimal n.toNat))

/-! ### Values and attributes -/

/-- A repeated field, written if it has elements or if defaults are written. -/
def repeatedField (emits : Bool) (vs : List Value) : Option Value :=
  if vs.isEmpty && !emits then none else some (.array vs)

def encodeEntry (emits : Bool) (k : Str) (value : Option Value) : Value :=
  .ofFields [("key", if k = Str.empty ∧ emits = false then none else some (.string k.1)),
    ("value", value)]

mutual

/-- The chosen member of a `oneof` is always written. -/
def encodeAnyValue (emits : Bool) : ProtoAnyValue → Value
  | .unset => .ofFields []
  | .stringValue s => .ofFields [("stringValue", some (.string s.1))]
  | .boolValue b => .ofFields [("boolValue", some (.bool b))]
  | .intValue i => .ofFields [("intValue", some (encodeI64 i))]
  | .doubleValue x => .ofFields [("doubleValue", some (encodeDouble x))]
  | .arrayValue values => .ofFields [("arrayValue",
      some (.ofFields [("values", repeatedField emits (encodeAll emits values))]))]
  | .kvlistValue values => .ofFields [("kvlistValue",
      some (.ofFields [("values", repeatedField emits (encodePairs emits values))]))]
  | .bytesValue b => .ofFields [("bytesValue", some (.string (String.ofList (base64 b.1))))]

def encodeAll (emits : Bool) : List ProtoAnyValue → List Value
  | [] => []
  | v :: vs => encodeAnyValue emits v :: encodeAll emits vs

def encodePairs (emits : Bool) : List (Str × Option ProtoAnyValue) → List Value
  | [] => []
  | (k, some v) :: kvs =>
    encodeEntry emits k (some (encodeAnyValue emits v)) :: encodePairs emits kvs
  | (k, none) :: kvs => encodeEntry emits k none :: encodePairs emits kvs

end

def encodeAttrs (emits : Bool) (attrs : Vec KeyValue) : Value := .array (encodePairs emits attrs.1)

/-! ### Fields without their defaults -/

def encodeText (s : Str) : Option Value := if s = Str.empty then none else some (.string s.1)

def encodeFixed64 (n : UInt64) : Option Value := if n = 0 then none else some (encodeU64 n)

def encodeEnum (i : Int32) : Option Value := if i = 0 then none else some (.ofInt64 i.toInt64)

def encodeBool (b : Bool) : Option Value := if b = false then none else some (.bool b)

def encodeId (b : Vec UInt8) : Option Value :=
  if b.1 = [] then none else some (.string (String.ofList (hex b.1)))

def encodeAttributes (attrs : Vec KeyValue) : Option Value :=
  if attrs.1 = [] then none else some (encodeAttrs false attrs)

/-! ### Messages -/

def encodeScope (s : ProtoScope) : Value :=
  .ofFields [("name", encodeText s.name), ("version", encodeText s.version),
    ("attributes", encodeAttributes s.attributes)]

def encodeResource (r : Resource) : Value :=
  .ofFields [("attributes", encodeAttributes r.attributes)]

section Request
variable {α : Type} (resources scopes items : String) (item : α → Value)

def encodeScopeItems (s : ScopeItems α) : Value :=
  .ofFields [("scope", s.scope.map encodeScope), (items, repeatedField false (s.items.map item)),
    ("schemaUrl", encodeText s.schemaUrl)]

def encodeResourceItems (r : ResourceItems α) : Value :=
  .ofFields [("resource", r.resource.map encodeResource),
    (scopes, repeatedField false (r.scopes.map (encodeScopeItems items item)))]

def encodeRequest (groups : List (ResourceItems α)) : Value :=
  .ofFields [(resources, repeatedField false (groups.map (encodeResourceItems scopes items item)))]

end Request

def encodeLogRecord (rec : ProtoLogRecord) : Value :=
  .ofFields [("timeUnixNano", encodeFixed64 rec.timeUnixNano),
    ("observedTimeUnixNano", encodeFixed64 rec.observedTimeUnixNano),
    ("severityNumber", encodeEnum rec.severityNumber),
    ("severityText", encodeText rec.severityText),
    ("body", rec.body.map (encodeAnyValue false)),
    ("attributes", encodeAttributes rec.attributes),
    ("traceId", encodeId rec.traceId), ("spanId", encodeId rec.spanId)]

def encodeLogs (resourceLogs : List ResourceLogs) : Value :=
  encodeRequest "resourceLogs" "scopeLogs" "logRecords" encodeLogRecord resourceLogs

def encodeNumberDataPoint (dp : NumberDataPoint) : Value :=
  .ofFields [("attributes", encodeAttributes dp.attributes),
    ("startTimeUnixNano", encodeFixed64 dp.startTimeUnixNano),
    ("timeUnixNano", encodeFixed64 dp.timeUnixNano),
    ("asDouble", dp.double?.map encodeDouble), ("asInt", dp.int?.map encodeI64)]

def encodeHistogramDataPoint (dp : HistogramDataPoint) : Value :=
  .ofFields [("attributes", encodeAttributes dp.attributes),
    ("startTimeUnixNano", encodeFixed64 dp.startTimeUnixNano),
    ("timeUnixNano", encodeFixed64 dp.timeUnixNano),
    ("count", encodeFixed64 dp.count), ("sum", dp.sum.map encodeDouble),
    ("bucketCounts", repeatedField false (dp.bucketCounts.1.map encodeU64)),
    ("explicitBounds", repeatedField false (dp.explicitBounds.1.map encodeDouble)),
    ("min", dp.min.map encodeDouble), ("max", dp.max.map encodeDouble)]

def encodeOtherDataPoint (dp : OtherDataPoint) : Value :=
  .ofFields [("attributes", encodeAttributes dp.attributes),
    ("startTimeUnixNano", encodeFixed64 dp.startTimeUnixNano),
    ("timeUnixNano", encodeFixed64 dp.timeUnixNano), ("count", encodeFixed64 dp.count)]

def encodeData : MetricData → String × Value
  | .gauge dps =>
    ("gauge", .ofFields [("dataPoints", repeatedField false (dps.map encodeNumberDataPoint))])
  | .sum dps temporality isMonotonic =>
    ("sum", .ofFields [("dataPoints", repeatedField false (dps.map encodeNumberDataPoint)),
      ("aggregationTemporality", encodeEnum temporality), ("isMonotonic", encodeBool isMonotonic)])
  | .histogram dps temporality =>
    ("histogram", .ofFields [
      ("dataPoints", repeatedField false (dps.map encodeHistogramDataPoint)),
      ("aggregationTemporality", encodeEnum temporality)])
  | .exponentialHistogram dps temporality =>
    ("exponentialHistogram", .ofFields [
      ("dataPoints", repeatedField false (dps.map encodeOtherDataPoint)),
      ("aggregationTemporality", encodeEnum temporality)])
  | .summary dps =>
    ("summary", .ofFields [("dataPoints", repeatedField false (dps.map encodeOtherDataPoint))])

def encodeMetric (m : ProtoMetric) : Value :=
  .ofFields ([("name", encodeText m.name), ("description", encodeText m.description),
    ("unit", encodeText m.unit)] ++
      (m.data.map encodeData).toList.map fun d => (d.1, some d.2))

def encodeMetrics (resourceMetrics : List ResourceMetrics) : Value :=
  encodeRequest "resourceMetrics" "scopeMetrics" "metrics" encodeMetric resourceMetrics

def encodeEvent (e : ProtoEvent) : Value :=
  .ofFields [("timeUnixNano", encodeFixed64 e.timeUnixNano), ("name", encodeText e.name),
    ("attributes", encodeAttributes e.attributes)]

def encodeLink (l : ProtoLink) : Value :=
  .ofFields [("traceId", encodeId l.traceId), ("spanId", encodeId l.spanId),
    ("traceState", encodeText l.traceState), ("attributes", encodeAttributes l.attributes)]

def encodeStatus (s : ProtoStatus) : Value :=
  .ofFields [("message", encodeText s.message), ("code", encodeEnum s.code)]

def encodeSpan (s : ProtoSpan) : Value :=
  .ofFields [("traceId", encodeId s.traceId), ("spanId", encodeId s.spanId),
    ("parentSpanId", encodeId s.parentSpanId), ("name", encodeText s.name),
    ("kind", encodeEnum s.kind), ("startTimeUnixNano", encodeFixed64 s.startTimeUnixNano),
    ("endTimeUnixNano", encodeFixed64 s.endTimeUnixNano),
    ("attributes", encodeAttributes s.attributes),
    ("events", repeatedField false (s.events.1.map encodeEvent)),
    ("links", repeatedField false (s.links.1.map encodeLink)),
    ("status", s.status.map encodeStatus)]

def encodeSpans (resourceSpans : List ResourceSpans) : Value :=
  encodeRequest "resourceSpans" "scopeSpans" "spans" encodeSpan resourceSpans

/-! ### Reading the fields back -/

theorem textField_of (v : Value) (k : String) (s : Str) (h : v.get k = encodeText s) :
    textField v k = s := by
  rw [textField, h, encodeText]
  split
  next hs => exact hs.symm
  next hs => exact Str.ofString_val s

theorem decodeU64_encodeU64 (n : UInt64) : decodeU64 (encodeU64 n) = n := by
  have hread : ((encodeU64 n).asStr.bind fun s => parseU64 s.toList) = some n := by
    change parseU64 (String.ofList (decimal n.toNat)).toList = some n
    rw [String.toList_ofList, parseU64_decimal]
  rw [decodeU64, hread]
  rfl

theorem decodeI64_encodeI64 (i : Int64) : decodeI64 (encodeI64 i) = i := by
  have hread : ((encodeI64 i).asStr.bind fun s => parseI64 s.toList) = some i := by
    change parseI64 (String.ofList (decimalInt i.toInt)).toList = some i
    rw [String.toList_ofList, parseI64_decimalInt]
  rw [decodeI64, hread]
  rfl

theorem u64Field_of (v : Value) (k : String) (n : UInt64) (h : v.get k = encodeFixed64 n) :
    u64Field v k = n := by
  rw [u64Field, h, encodeFixed64]
  split
  next hn => exact hn.symm
  next hn => exact decodeU64_encodeU64 n

theorem i32Field_of (v : Value) (k : String) (i : Int32) (h : v.get k = encodeEnum i) :
    i32Field v k = i := by
  rw [i32Field, h, encodeEnum]
  split
  next hi => exact hi.symm
  next hi => simp [Json.asI64_ofInt64]

theorem elements_of (v : Value) (k : String) (vs : List Value)
    (h : v.get k = repeatedField false vs) : elements v k = vs := by
  cases vs with
  | nil => rw [elements, h]; rfl
  | cons w ws => rw [elements, h]; rfl

/-! Ids of any length, written as hex, are read as the arrays of their bytes. -/

theorem hexPairs_hexBytes (bs : List UInt8) :
    hexPairs (bs.flatMap hexBytes) = .ok (some bs) := by
  induction bs with
  | nil => rfl
  | cons b bs ih =>
    have hlt := b.toNat_lt
    obtain ⟨_, _, _, hstart, _⟩ := digitChar_hex (b.toNat / 16) (by omega)
    have hend : (bs.flatMap hexBytes).head?.any isContinuation = false := by
      cases bs with
      | nil => rfl
      | cons b' bs' =>
        have hlt' := b'.toNat_lt
        exact (digitChar_hex (b'.toNat / 16) (by omega)).2.2.2.1
    have hcons : (b :: bs).flatMap hexBytes = (Nat.digitChar (b.toNat / 16)).toNat.toUInt8 ::
        (Nat.digitChar (b.toNat % 16)).toNat.toUInt8 :: bs.flatMap hexBytes := rfl
    have hbyte := parseHexU8_hexBytes b
    rw [hexBytes] at hbyte
    rw [hcons, hexPairs, hstart, hend, hbyte, ih]
    rfl

theorem hexTo_hex (n : Nat) (bs : List UInt8) :
    hexTo n (String.ofList (hex bs)) = .ok (bytesToArray n bs) := by
  simp only [hexTo, String.toList_ofList, trim_hex, utf8_hex, length_flatMap_hexBytes]
  split
  next hne =>
    have hlen : bs.length ≠ n := fun h => hne (by omega)
    rw [bytesToArray, dif_neg hlen]
  next heq =>
    rw [hexPairs_hexBytes]
    rfl

theorem idField_of (n : Nat) (hn : 0 < n) (v : Value) (k : String) (b : Vec UInt8)
    (h : v.get k = encodeId b) : idField (hexTo n) v k = .ok (bytesToArray n b.1) := by
  by_cases hb : b.1 = []
  · rw [idField, h, encodeId, if_pos hb, hb, bytesToArray, dif_neg (by simpa using Nat.ne_of_lt hn)]
    rfl
  · rw [idField, h, encodeId, if_neg hb]
    exact hexTo_hex n b.1

theorem idField16_of (v : Value) (k : String) (b : Vec UInt8) (h : v.get k = encodeId b) :
    idField hexTo16 v k = .ok (bytesToArray16 b) :=
  idField_of 16 (by decide) v k b h

theorem idField8_of (v : Value) (k : String) (b : Vec UInt8) (h : v.get k = encodeId b) :
    idField hexTo8 v k = .ok (bytesToArray8 b) :=
  idField_of 8 (by decide) v k b h

theorem attrsField_of (v : Value) (k : String) (attrs : Vec KeyValue)
    (h : v.get k = encodeAttributes attrs)
    (hagree : decodeAttrs (encodeAttrs false attrs) = convertAttrs attrs) :
    attrsField v k = convertAttrs attrs := by
  rw [attrsField, h, encodeAttributes]
  split
  next hnil =>
    rw [← hagree, encodeAttrs, hnil]
    rfl
  next hne => exact hagree

end InfraLens.Otlp
