import InfraLens.Model

/-! The Arrow schemas of the three signals (schema.rs). -/
namespace InfraLens.Schema
open Model

/-- The Arrow types that occur in the schemas and in query results. -/
inductive DataType where
  | uint64
  | int64
  | int32
  | int8
  | float64
  | utf8
  | binary
  | boolean
  deriving DecidableEq

structure Field where
  name : String
  dataType : DataType
  nullable : Bool
  deriving DecidableEq

def logSchema : List Field :=
  [⟨"timestamp_ns", .uint64, false⟩, ⟨"observed_timestamp_ns", .uint64, false⟩,
    ⟨"trace_id", .binary, true⟩, ⟨"span_id", .binary, true⟩,
    ⟨"severity_number", .int32, false⟩, ⟨"severity_text", .utf8, true⟩,
    ⟨"body", .utf8, true⟩, ⟨"attributes", .utf8, true⟩, ⟨"resource_attributes", .utf8, true⟩,
    ⟨"scope_name", .utf8, true⟩, ⟨"scope_version", .utf8, true⟩, ⟨"schema_url", .utf8, true⟩]

def metricSchema : List Field :=
  [⟨"timestamp_ns", .uint64, false⟩, ⟨"start_timestamp_ns", .uint64, true⟩,
    ⟨"name", .utf8, false⟩, ⟨"description", .utf8, true⟩, ⟨"unit", .utf8, true⟩,
    ⟨"metric_type", .int8, false⟩, ⟨"value_double", .float64, true⟩,
    ⟨"value_int", .int64, true⟩, ⟨"histogram_count", .uint64, true⟩,
    ⟨"histogram_sum", .float64, true⟩, ⟨"histogram_bounds", .binary, true⟩,
    ⟨"histogram_counts", .binary, true⟩, ⟨"attributes", .utf8, true⟩,
    ⟨"resource_attributes", .utf8, true⟩, ⟨"scope_name", .utf8, true⟩,
    ⟨"scope_version", .utf8, true⟩, ⟨"schema_url", .utf8, true⟩]

def spanSchema : List Field :=
  [⟨"trace_id", .binary, false⟩, ⟨"span_id", .binary, false⟩,
    ⟨"parent_span_id", .binary, true⟩, ⟨"name", .utf8, false⟩, ⟨"kind", .int32, false⟩,
    ⟨"start_time_ns", .uint64, false⟩, ⟨"end_time_ns", .uint64, false⟩,
    ⟨"duration_ns", .uint64, false⟩, ⟨"status_code", .int32, false⟩,
    ⟨"status_message", .utf8, true⟩, ⟨"attributes", .utf8, true⟩,
    ⟨"resource_attributes", .utf8, true⟩, ⟨"scope_name", .utf8, true⟩,
    ⟨"scope_version", .utf8, true⟩, ⟨"events", .utf8, true⟩, ⟨"links", .utf8, true⟩,
    ⟨"schema_url", .utf8, true⟩]

def schema : SignalType → List Field
  | .log => logSchema
  | .metric => metricSchema
  | .span => spanSchema

end InfraLens.Schema
