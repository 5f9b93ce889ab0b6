import InfraLens.Signals
import InfraLens.Executor

/-! The record batches of the SSTables (sstable.rs): a column builder for each field of a
signal's schema, the loop over the records, and the batches `read_parquet` gives back. The number
an `f64` stands for and the reader of the parquet crate are parameters. -/
namespace InfraLens.Tables
open Model Rows Schema Arrow Query LibBincode

variable {F ρ : Type}

/-- A column builder and what one iteration of the loop appends to it. -/
structure Builder (F ρ : Type) where
  dataType : DataType
  append : ρ → Slot (Value F dataType)

def Builder.finish (b : Builder F ρ) (rows : List ρ) : ArrayRef F :=
  ⟨b.dataType, rows.map b.append⟩

def Builder.cell (b : Builder F ρ) (row : ρ) : Cell F := ⟨b.dataType, b.append row⟩

def appendValue (dataType : DataType) (value : ρ → Value F dataType) : Builder F ρ :=
  ⟨dataType, fun row => .valid (value row)⟩

/-- A null leaves the type's zero in the buffer. -/
def appendOption (dataType : DataType) (zero : Value F dataType)
    (value : ρ → Option (Value F dataType)) : Builder F ρ :=
  ⟨dataType, fun row => (value row).elim (.null zero) .valid⟩

def appendText (value : ρ → Option Str) : Builder F ρ :=
  appendOption .utf8 "" fun row => (value row).map Subtype.val

def appendBytes {n : Nat} (value : ρ → Option (Bytes n)) : Builder F ρ :=
  appendOption .binary [] fun row => (value row).map Subtype.val

/-! ### The three signals -/

def logBuilders : List (Builder F LogRow) :=
  [appendValue .uint64 LogRow.timestampNs, appendValue .uint64 LogRow.observedTimestampNs,
    appendBytes LogRow.traceId, appendBytes LogRow.spanId,
    appendValue .int32 LogRow.severityNumber, appendText LogRow.severityText,
    appendText LogRow.body, appendText LogRow.attributes, appendText LogRow.resourceAttributes,
    appendText LogRow.scopeName, appendText LogRow.scopeVersion, appendText LogRow.schemaUrl]

variable (float : F64 → F)

def metricBuilders : List (Builder F MetricRow) :=
  [appendValue .uint64 MetricRow.timestampNs, appendValue .uint64 MetricRow.startTimestampNs,
    appendValue .utf8 fun r => r.name.1, appendText MetricRow.description,
    appendText MetricRow.unit, appendValue .int8 MetricRow.metricType,
    appendOption .float64 (float ⟨0⟩) fun r => r.valueDouble.map float,
    appendOption .int64 0 MetricRow.valueInt, appendOption .uint64 0 MetricRow.histogramCount,
    appendOption .float64 (float ⟨0⟩) fun r => r.histogramSum.map float,
    appendOption .binary [] MetricRow.histogramBounds,
    appendOption .binary [] MetricRow.histogramCounts, appendText MetricRow.attributes,
    appendText MetricRow.resourceAttributes, appendText MetricRow.scopeName,
    appendText MetricRow.scopeVersion, appendText MetricRow.schemaUrl]

def spanBuilders : List (Builder F SpanRow) :=
  [appendValue .binary fun r => r.traceId.1, appendValue .binary fun r => r.spanId.1,
    appendBytes SpanRow.parentSpanId, appendValue .utf8 fun r => r.name.1,
    appendValue .int32 SpanRow.kind, appendValue .uint64 SpanRow.startTimeNs,
    appendValue .uint64 SpanRow.endTimeNs, appendValue .uint64 SpanRow.durationNs,
    appendValue .int32 SpanRow.statusCode, appendText SpanRow.statusMessage,
    appendText SpanRow.attributes, appendText SpanRow.resourceAttributes,
    appendText SpanRow.scopeName, appendText SpanRow.scopeVersion, appendText SpanRow.events,
    appendText SpanRow.links, appendText SpanRow.schemaUrl]

def signalBuilders : (sig : SignalType) → List (Builder F (SignalRow sig))
  | .log => logBuilders
  | .metric => metricBuilders float
  | .span => spanBuilders

def rowCells (sig : SignalType) (row : SignalRow sig) : List (Cell F) :=
  (signalBuilders float sig).map (·.cell row)

/-- `build_log_batch`, `build_metric_batch` and `build_span_batch`. -/
def buildBatch (json : Json) (sig : SignalType) (records : List (SignalRecord sig)) :
    Res (RecordBatch F) :=
  tryNew (schema sig)
    ((signalBuilders float sig).map (·.finish (records.map (signalRow json sig))))

/-- What is taken for granted of `read_parquet`, on a file written from a batch: the batches it
yields keep the schema, hold the rows in order, and are not empty. -/
class ParquetReader (F : Type) where
  readParquet (batchSize : Nat) (b : RecordBatch F) : List (RecordBatch F)
  readParquet_schema : ∀ batchSize b, ∀ c ∈ readParquet batchSize b, c.schema = b.schema
  readParquet_rows : ∀ batchSize b, 0 < batchSize →
    resultRows (readParquet batchSize b) = b.rows
  readParquet_pos : ∀ batchSize b, 0 < batchSize →
    ∀ c ∈ readParquet batchSize b, 0 < c.numRows

export ParquetReader (readParquet readParquet_schema readParquet_rows readParquet_pos)

/-! ### Builders and rows -/

theorem rowsOf_finish (builders : List (Builder F ρ)) (rows : List ρ) :
    Arrow.rowsOf rows.length (builders.map (·.finish rows)) =
      rows.map fun row => builders.map (·.cell row) := by
  induction builders with
  | nil => simp [Arrow.rowsOf]
  | cons b builders ih =>
    have hcells : (b.finish rows).cells = rows.map b.cell := by
      simp [ArrayRef.cells, Builder.finish, Builder.cell]
    rw [List.map_cons, Arrow.rowsOf, ih, hcells, List.zip_map', List.map_map]
    rfl

/-- Builders of the schema's types that append nulls only where the schema allows them. -/
structure Conforms (fields : List Field) (builders : List (Builder F ρ)) : Prop where
  some : builders ≠ []
  typed : builders.map Builder.dataType = fields.map Field.dataType
  nonNull : ∀ p ∈ fields.zip builders, p.1.nullable = false → ∀ row, (p.2.append row).isNull = false

def batchOf (fields : List Field) (builders : List (Builder F ρ)) (h : Conforms fields builders)
    (rows : List ρ) : RecordBatch F where
  schema := fields
  numRows := rows.length
  columns := builders.map (·.finish rows)
  typed := by
    rw [List.map_map]
    exact h.typed
  sized := by
    intro a ha
    obtain ⟨c, -, rfl⟩ := List.mem_map.mp ha
    exact List.length_map c.append
  nonNull := by
    intro p hp hfield s hs
    rw [List.zip_map_right] at hp
    obtain ⟨q, hq, rfl⟩ := List.mem_map.mp hp
    obtain ⟨row, -, rfl⟩ := List.mem_map.mp hs
    exact h.nonNull q hq hfield row

theorem tryNew_finish (fields : List Field) (builders : List (Builder F ρ))
    (h : Conforms fields builders) (rows : List ρ) :
    tryNew fields (builders.map (·.finish rows)) = .ok (batchOf fields builders h rows) := by
  obtain ⟨b, builders, rfl⟩ := List.exists_cons_of_ne_nil h.some
  have hlen : (b.finish rows).len = rows.length := List.length_map b.append
  have hsized := (batchOf fields (b :: builders) h rows).sized
  rw [List.map_cons, tryNew, dif_pos ⟨(batchOf fields (b :: builders) h rows).typed,
    fun a ha => (hsized a ha).trans hlen.symm, (batchOf fields (b :: builders) h rows).nonNull⟩]
  simp only [batchOf, hlen]
  rfl

theorem isNull_appendValue (dataType : DataType) (value : ρ → Value F dataType) (row : ρ) :
    ((appendValue dataType value).append row).isNull = false := rfl

theorem conforms_log : Conforms logSchema (logBuilders : List (Builder F LogRow)) := by
  refine ⟨List.cons_ne_nil _ _, rfl, ?_⟩
  simp [logSchema, logBuilders, isNull_appendValue]

theorem conforms_metric : Conforms metricSchema (metricBuilders float) := by
  refine ⟨List.cons_ne_nil _ _, rfl, ?_⟩
  simp [metricSchema, metricBuilders, isNull_appendValue]

theorem conforms_span : Conforms spanSchema (spanBuilders : List (Builder F SpanRow)) := by
  refine ⟨List.cons_ne_nil _ _, rfl, ?_⟩
  simp [spanSchema, spanBuilders, isNull_appendValue]

theorem conforms_signal (sig : SignalType) :
    Conforms (schema sig) (signalBuilders float sig) := by
  cases sig with
  | log => exact conforms_log
  | metric => exact conforms_metric float
  | span => exact conforms_span

def storedBatch (json : Json) (sig : SignalType) (records : List (SignalRecord sig)) :
    RecordBatch F :=
  batchOf (schema sig) (signalBuilders float sig) (conforms_signal float sig)
    (records.map (signalRow json sig))

theorem buildBatch_eq (json : Json) (sig : SignalType) (records : List (SignalRecord sig)) :
    buildBatch float json sig records = .ok (storedBatch float json sig records) :=
  tryNew_finish (schema sig) (signalBuilders float sig) (conforms_signal float sig) _

theorem storedBatch_rows (json : Json) (sig : SignalType) (records : List (SignalRecord sig)) :
    (storedBatch float json sig records).rows =
      records.map fun r => rowCells float sig (signalRow json sig r) := by
  rw [storedBatch, RecordBatch.rows, batchOf, rowsOf_finish, List.map_map]
  rfl

/-! ### Reading back -/

theorem flatMap_slices {α : Type} (l : List α) (k n : Nat) :
    ((List.range n).flatMap fun i => (l.drop (i * k)).take k) = l.take (n * k) := by
  induction n with
  | zero => simp
  | succ n ih => rw [List.range_succ, List.flatMap_append, ih, List.flatMap_singleton,
      Nat.succ_mul, List.take_add]

/-- The rows of a batch in order, `batchSize` of them at a time. -/
def chunks (batchSize : Nat) (b : RecordBatch F) : List (RecordBatch F) :=
  (List.range ((b.numRows + batchSize - 1) / batchSize)).map fun i =>
    b.slice (i * batchSize) batchSize

theorem chunks_rows (batchSize : Nat) (b : RecordBatch F) (h : 0 < batchSize) :
    resultRows (chunks batchSize b) = b.rows := by
  have hall : b.numRows ≤ (b.numRows + batchSize - 1) / batchSize * batchSize := by
    have hdiv := Nat.div_add_mod (b.numRows + batchSize - 1) batchSize
    have hmod := Nat.mod_lt (b.numRows + batchSize - 1) h
    rw [Nat.mul_comm]
    omega
  rw [resultRows, chunks, List.flatMap_map]
  simp only [rows_slice]
  rw [flatMap_slices, List.take_of_length_le (by rwa [length_rows])]

theorem chunks_schema (batchSize : Nat) (b c : RecordBatch F) (h : c ∈ chunks batchSize b) :
    c.schema = b.schema := by
  obtain ⟨i, -, rfl⟩ := List.mem_map.mp h
  rfl

theorem chunks_pos (batchSize : Nat) (b : RecordBatch F) (h : 0 < batchSize) (c : RecordBatch F)
    (hc : c ∈ chunks batchSize b) : 0 < c.numRows := by
  obtain ⟨i, hi, rfl⟩ := List.mem_map.mp hc
  have hlt : i * batchSize < b.numRows := by
    have hdiv := Nat.div_mul_le_self (b.numRows + batchSize - 1) batchSize
    have hnext := Nat.mul_le_mul_right batchSize (Nat.succ_le_of_lt (List.mem_range.mp hi))
    rw [Nat.succ_mul] at hnext
    omega
  change 0 < min batchSize (b.numRows - i * batchSize)
  omega

instance chunkReader : ParquetReader F := ⟨chunks, chunks_schema, chunks_rows, chunks_pos⟩

/-! ### What the columns determine -/

theorem cell_appendValue (dataType : DataType) (value : ρ → Value F dataType) (r r' : ρ) :
    (appendValue dataType value).cell r = (appendValue dataType value).cell r' ↔
      value r = value r' := by
  simp [Builder.cell, appendValue]

theorem cell_appendOption (dataType : DataType) (zero : Value F dataType)
    (value : ρ → Option (Value F dataType)) (r r' : ρ) :
    (appendOption dataType zero value).cell r = (appendOption dataType zero value).cell r' ↔
      value r = value r' := by
  simp only [Builder.cell, appendOption, Cell.mk.injEq, heq_eq_eq, true_and]
  cases value r <;> cases value r' <;> simp

theorem cell_appendText (value : ρ → Option Str) (r r' : ρ) :
    (appendText value : Builder F ρ).cell r = (appendText value).cell r' ↔ value r = value r' :=
  (cell_appendOption .utf8 "" _ r r').trans (Option.map_injective Subtype.val_injective).eq_iff

theorem cell_appendBytes {n : Nat} (value : ρ → Option (Bytes n)) (r r' : ρ) :
    (appendBytes value : Builder F ρ).cell r = (appendBytes value).cell r' ↔ value r = value r' :=
  (cell_appendOption .binary [] _ r r').trans (Option.map_injective Subtype.val_injective).eq_iff

theorem logBuilders_injective (r r' : LogRow)
    (h : (logBuilders.map (·.cell r) : List (Cell F)) = logBuilders.map (·.cell r')) : r = r' := by
  simp only [logBuilders, List.map_cons, List.map_nil, List.cons.injEq, cell_appendValue,
    cell_appendText, cell_appendBytes, and_true] at h
  cases r
  cases r'
  simp_all

theorem metricBuilders_injective (hfloat : Function.Injective float) (r r' : MetricRow)
    (h : (metricBuilders float).map (·.cell r) = (metricBuilders float).map (·.cell r')) :
    r = r' := by
  have hoption (o o' : Option F64) : o.map float = o'.map float ↔ o = o' :=
    (Option.map_injective hfloat).eq_iff
  have hname : r.name.1 = r'.name.1 ↔ r.name = r'.name := Subtype.ext_iff.symm
  simp only [metricBuilders, List.map_cons, List.map_nil, List.cons.injEq, cell_appendValue,
    cell_appendOption, cell_appendText, hoption, hname, and_true] at h
  cases r
  cases r'
  simp_all

theorem spanBuilders_injective (r r' : SpanRow)
    (h : (spanBuilders.map (·.cell r) : List (Cell F)) = spanBuilders.map (·.cell r')) :
    r = r' := by
  have htrace : r.traceId.1 = r'.traceId.1 ↔ r.traceId = r'.traceId := Subtype.ext_iff.symm
  have hspan : r.spanId.1 = r'.spanId.1 ↔ r.spanId = r'.spanId := Subtype.ext_iff.symm
  have hname : r.name.1 = r'.name.1 ↔ r.name = r'.name := Subtype.ext_iff.symm
  simp only [spanBuilders, List.map_cons, List.map_nil, List.cons.injEq, cell_appendValue,
    cell_appendText, cell_appendBytes, htrace, hspan, hname, and_true] at h
  cases r
  cases r'
  simp_all

theorem rowCells_injective (hfloat : Function.Injective float) (sig : SignalType) :
    Function.Injective (rowCells float sig) := by
  cases sig with
  | log => exact fun r r' h => logBuilders_injective r r' h
  | metric => exact fun r r' h => metricBuilders_injective float hfloat r r' h
  | span => exact fun r r' h => spanBuilders_injective r r' h

theorem timeColumn_cell (sig : SignalType) (row : SignalRow sig) :
    (timeColumn (schema sig)).bind (cell? (schema sig) (rowCells float sig row)) =
      some ⟨.uint64, .valid (timestampNs sig row)⟩ := by
  cases sig <;> rfl

end InfraLens.Tables
