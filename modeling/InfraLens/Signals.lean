import InfraLens.Rows
import InfraLens.Schema
import InfraLens.SSTableDir
import InfraLens.Bloom

/-! What the table files of each signal are made from: the time and the key the writers
take from a record (sstable.rs), and the time column compaction looks up (compaction.rs). -/
namespace InfraLens.Tables
open Model Rows Bloom LibBincode Schema

def SignalRecord : SignalType → Type
  | .log => LogRecord
  | .metric => MetricPoint
  | .span => SpanRecord

def SignalRow : SignalType → Type
  | .log => LogRow
  | .metric => MetricRow
  | .span => SpanRow

def signalRow (json : Json) : (sig : SignalType) → SignalRecord sig → SignalRow sig
  | .log, r => logRow json r
  | .metric, r => metricRow json r
  | .span, r => spanRow json r

def timestampNs : (sig : SignalType) → SignalRow sig → UInt64
  | .log, (r : LogRow) => r.timestampNs
  | .metric, (r : MetricRow) => r.timestampNs
  | .span, (r : SpanRow) => r.startTimeNs

/-- The key of a row's bloom filter; a null severity text is the empty one. -/
def bloomKey : (sig : SignalType) → SignalRow sig → List UInt8
  | .log, (r : LogRow) => (r.severityText.getD Str.empty).utf8
  | .metric, (r : MetricRow) => r.name.utf8
  | .span, (r : SpanRow) => r.traceId.1

/-- `zm.observe_timestamp` of the record in `write_logs`, `write_metrics`, `write_spans`. -/
def recordTime : (sig : SignalType) → SignalRecord sig → UInt64
  | .log, (r : LogRecord) => r.timestampNs
  | .metric, (r : MetricPoint) => r.timestampNs
  | .span, (r : SpanRecord) => r.startTimeNs

/-- `bf.insert` of the record there. -/
def recordKey : (sig : SignalType) → SignalRecord sig → List UInt8
  | .log, (r : LogRecord) => r.severityText.utf8
  | .metric, (r : MetricPoint) => r.name.utf8
  | .span, (r : SpanRecord) => r.traceId.1

theorem getD_textOpt (s : Str) : (textOpt s).getD Str.empty = s := by
  unfold textOpt
  split
  · rename_i h
    exact Subtype.ext (String.isEmpty_iff.mp h).symm
  · rfl

theorem timestampNs_signalRow (json : Json) (sig : SignalType) (r : SignalRecord sig) :
    timestampNs sig (signalRow json sig r) = recordTime sig r := by
  cases sig <;> rfl

theorem bloomKey_signalRow (json : Json) (sig : SignalType) (r : SignalRecord sig) :
    bloomKey sig (signalRow json sig r) = recordKey sig r := by
  cases sig with
  | log => exact congrArg Str.utf8 (getD_textOpt _)
  | metric => rfl
  | span => rfl

section Files
variable (sip : List UInt8 → UInt64 → UInt64) (sizing : Sizing)

/-- The `.bloom` file of a writer with these keys; no file where an insertion stops it. -/
def bloomFile (keys : List (List UInt8)) : List UInt8 :=
  match (BloomFilter.new sizing (UInt64.ofNat (max keys.length 1))).insertAll sip keys with
  | .ok f => f.toBytes
  | .error _ => []

def signalLayout (sig : SignalType) : Layout (SignalRow sig) where
  timestampNs := timestampNs sig
  bloom rows := bloomFile sip sizing (rows.map (bloomKey sig))
  mergedBloom n := (BloomFilter.new sizing (UInt64.ofNat n)).toBytes

theorem bloom_records (json : Json) (sig : SignalType) (records : List (SignalRecord sig)) :
    (signalLayout sip sizing sig).bloom (records.map (signalRow json sig)) =
      bloomFile sip sizing (records.map (recordKey sig)) := by
  simp only [signalLayout, List.map_map, Function.comp_def, bloomKey_signalRow]

theorem zoneMap_records (json : Json) (sig : SignalType) (records : List (SignalRecord sig)) :
    (signalLayout sip sizing sig).zoneMap (records.map (signalRow json sig)) =
      records.foldl (fun zm r => zm.observeTimestamp (recordTime sig r)) ZoneMap.new := by
  simp only [Layout.zoneMap, signalLayout, List.foldl_map, timestampNs_signalRow]

theorem bloomFile_contains (keys : List (List UInt8)) (hlen : keys.length < 2 ^ 60) :
    ∃ f, fromBytes (bloomFile sip sizing keys) = .ok (some f) ∧
      ∀ key ∈ keys, f.contains sip key = .ok true := by
  have hn : (UInt64.ofNat (max keys.length 1)).toNat < 2 ^ 60 := by
    rw [UInt64.toNat_ofNat']
    omega
  obtain ⟨f, hins, hgrown, hkeys⟩ := insertAll_ok sip _ (sized_new sizing _ hn) keys
  refine ⟨f, ?_, hkeys⟩
  rw [bloomFile, hins]
  exact fromBytes_toBytes f hgrown.sized

/-! ### The time column of a compaction -/

/-- `column_by_name("timestamp_ns").or_else(|| column_by_name("start_time_ns"))`. -/
def timeColumn (fields : List Field) : Option String :=
  ["timestamp_ns", "start_time_ns"].find? fun name => fields.any fun f => f.name == name

/-- The time columns of the rows, by name. -/
def timeValues : (sig : SignalType) → String → Option (SignalRow sig → UInt64)
  | .log, "timestamp_ns" => some (timestampNs .log)
  | .metric, "timestamp_ns" => some (timestampNs .metric)
  | .span, "start_time_ns" => some (timestampNs .span)
  | _, _ => none

/-- The zone map `compact_signal` builds over the batches it read. -/
def mergedZoneMap (sig : SignalType) (batches : List (List (SignalRow sig))) : ZoneMap :=
  batches.foldl (fun zm batch =>
    match (timeColumn (schema sig)).bind (timeValues sig) with
    | some column => (batch.map column).foldl ZoneMap.observeTimestamp zm
    | none => zm) ZoneMap.new

theorem timeColumn_schema (sig : SignalType) :
    (timeColumn (schema sig)).bind (timeValues sig) = some (timestampNs sig) := by
  cases sig <;> rfl

theorem mergedZoneMap_eq (sig : SignalType) (batches : List (List (SignalRow sig))) :
    mergedZoneMap sig batches = (signalLayout sip sizing sig).zoneMap batches.flatten := by
  simp only [mergedZoneMap, timeColumn_schema, Layout.zoneMap, signalLayout, List.foldl_map,
    List.foldl_flatten]

end Files

end InfraLens.Tables
