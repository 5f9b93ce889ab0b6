import InfraLens.LibList
import InfraLens.RoundTrip
import InfraLens.RowQueries

/-! From `write_batch` to the answers of `execute`: the SSTables the engine registers are the
tables the executor reads, so what a statement returns is said in terms of the records that were
written. -/
namespace InfraLens.Storage
open Model LibRun LibList Rows Schema Arrow Query Tables

variable {F ι : Type}

/-- The records a `flush_signal_*` hands to the writer of its signal. -/
def signalRecord? : (sig : SignalType) → Record → Option (SignalRecord sig)
  | .log, .log r => some r
  | .metric, .metric p => some p
  | .span, .span r => some r
  | _, _ => none

theorem signalRecord?_other (sig : SignalType) (r : Record) (h : r.signalType ≠ sig) :
    signalRecord? sig r = none := by
  cases sig <;> cases r <;> first | rfl | exact absurd rfl h

section Cells
variable (float : F64 → F) (json : Json)

def recordCells (sig : SignalType) (r : Record) : Option (List (Cell F)) :=
  (signalRecord? sig r).map fun x => rowCells float sig (signalRow json sig x)

def cellsOf (rs : List Record) (sig : SignalType) : List (List (Cell F)) :=
  rs.filterMap (recordCells float json sig)

def tableFile (sig : SignalType) (t : SSTable Record) : ZoneMap × RecordBatch F :=
  let records := t.records.filterMap (signalRecord? sig)
  (records.foldl (fun zm r => zm.observeTimestamp (recordTime sig r)) ZoneMap.new,
    storedBatch float json sig records)

theorem tableFile_rows (sig : SignalType) (t : SSTable Record) :
    (tableFile float json sig t).2.rows = cellsOf float json t.records sig := by
  rw [tableFile, storedBatch_rows, cellsOf, List.map_filterMap]
  rfl

/-- The engine's SSTables as the executor finds them: `keys` are the partitions, in the order
its map goes through them. -/
def Engine.tables (s : Engine ι Record) (keys : List UInt64) (hkeys : keys.Nodup)
    (sig : SignalType) : Dataset F sig where
  entries := keys.map fun key => (key, ((s.sstables.filter fun t => t.signalType = sig).filter
    fun t => t.partition = key).map (tableFile float json sig))
  nodup := by
    rw [List.map_map]
    exact (List.map_id keys).symm ▸ hkeys
  typed := by
    intro e he f hf
    obtain ⟨key, -, rfl⟩ := List.mem_map.mp he
    obtain ⟨t, -, rfl⟩ := List.mem_map.mp hf
    rfl

theorem get_tables (s : Engine ι Record) (keys : List UInt64) (hkeys : keys.Nodup)
    (sig : SignalType) (key : UInt64) (hmem : key ∈ keys) :
    (s.tables float json keys hkeys sig).get key =
      ((s.sstables.filter fun t => t.signalType = sig).filter fun t => t.partition = key).map
        fun t => (tableFile float json sig t).2 := by
  have hfind : keys.find? (fun k => k = key) = some key := by
    rw [List.find?_eq_some_iff_getElem]
    obtain ⟨i, hi, rfl⟩ := List.getElem_of_mem hmem
    refine ⟨by simp, i, hi, rfl, ?_⟩
    intro j hj
    simp only [Bool.not_eq_true', decide_eq_false_iff_not]
    intro he
    exact absurd (hkeys.getElem_inj_iff.mp he) (Nat.ne_of_lt hj)
  rw [Dataset.get, Engine.tables, List.find?_map]
  simp only [Function.comp_def, hfind, Option.map_some, Option.getD_some, List.map_map]

theorem resultRows_tables (s : Engine ι Record) (keys : List UInt64) (hkeys : keys.Nodup)
    (hcover : ∀ t ∈ s.sstables, t.partition ∈ keys) (sig : SignalType) :
    (resultRows ((s.tables float json keys hkeys sig).paths []) : Multiset (List (Cell F))) =
      (s.registered sig).filterMap fun p => recordCells float json sig p.2 := by
  have hpaths : (s.tables float json keys hkeys sig).paths [] = keys.flatMap fun key =>
      ((s.sstables.filter fun t => t.signalType = sig).filter fun t => t.partition = key).map
        fun t => (tableFile float json sig t).2 := by
    have hall : (s.tables float json keys hkeys sig).entries.map Prod.fst = keys := by
      rw [Engine.tables, List.map_map]
      exact List.map_id keys
    rw [Dataset.paths, if_pos List.isEmpty_nil, hall]
    exact List.flatMap_congr fun key hkey => get_tables float json s keys hkeys sig key hkey
  have hrows : resultRows ((s.tables float json keys hkeys sig).paths []) = keys.flatMap fun key =>
      ((s.sstables.filter fun t => t.signalType = sig).filter fun t => t.partition = key).flatMap
        fun t => cellsOf float json t.records sig := by
    rw [hpaths, resultRows, List.flatMap_assoc]
    simp only [List.flatMap_map, tableFile_rows]
  have hperm := flatMap_keys SSTable.partition (fun t => cellsOf float json t.records sig) keys
    hkeys (s.sstables.filter fun t => t.signalType = sig)
    fun t ht => hcover t (List.mem_filter.mp ht).1
  rw [hrows, Multiset.coe_eq_coe.mpr hperm, Engine.registered, Multiset.filterMap_coe,
    List.filterMap_flatMap]
  simp only [List.filterMap_map]
  rfl

theorem survivors_cells (cfg : Config) (rs : List Record) (sig : SignalType) :
    ((cfg.env.survivors rs sig).filterMap fun p => recordCells float json sig p.2) =
      (cellsOf float json (rs.filter fun r => r.NoAnyValue) sig : List (List (Cell F))) := by
  have hother (r : Record) (h : r.signalType ≠ sig) : recordCells float json sig r = none := by
    rw [recordCells, signalRecord?_other sig r h]
    rfl
  rw [survivors_env, Multiset.filterMap_coe, List.filterMap_map, cellsOf, List.filter_comm,
    List.filterMap_filter]
  congr 1
  apply List.filterMap_congr
  intro r _
  by_cases h : r.signalType = sig <;> simp [h, hother]

end Cells

/-! ### Statements -/

section Statements
variable [FloatOps F] (float : F64 → F) (json : Json) (clock : Int64)

omit [FloatOps F] in
theorem partitionFilter_new (sel : SelectStatement F) :
    (sel.unlimited.scanOp clock Catalog.new).partitionFilter = [] := by
  unfold SelectStatement.scanOp pruneScan
  split
  · exact overlappingPartitions_new _ _ _
  · rfl

theorem scanRows_perm (fields : List Field) (pred : Option (Expr F))
    (rows rows' : List (List (Cell F))) (h : rows.Perm rows') :
    (scanRows clock fields pred rows).Perm (scanRows clock fields pred rows') := by
  cases pred with
  | none => exact h
  | some p => exact h.filter _

theorem scannable_perm (fields : List Field) (pred : Option (Expr F))
    (rows rows' : List (List (Cell F))) (h : rows.Perm rows') :
    Scannable clock fields pred rows ↔ Scannable clock fields pred rows' := by
  unfold Scannable
  simp only [h.mem_iff]

/-- The statements whose answers are rows of their table: one table, no aggregate, no ORDER BY,
no OFFSET, and a predicate that is decided row by row. -/
structure RowStatement (sel : SelectStatement F) (sig : SignalType) : Prop where
  joins : sel.joins = []
  streaming : sel.Streaming
  skip : sel.skip = 0
  table : signalForTable sel.table.name = .ok sig
  rowWise : ∀ p ∈ sel.pushed clock, RowWise (schema sig) p

variable [ParquetReader F] (lexsort : List (SortColumn F) → Res (List Nat)) (batchSize : Nat)
  (hsize : 0 < batchSize) (sel : SelectStatement F) (sig : SignalType)
  (hsel : RowStatement clock sel sig)

include hsize hsel in
theorem execute_tables (s : Engine ι Record) (keys : List UInt64) (hkeys : keys.Nodup)
    (hcover : ∀ t ∈ s.sstables, t.partition ∈ keys) (rows : List (List (Cell F)))
    (hrows : (rows : Multiset (List (Cell F))) =
      (s.registered sig).filterMap fun p => recordCells float json sig p.2) :
    (Scannable clock (schema sig) (sel.pushed clock) rows →
      ∃ out all, execute (readEnv clock (s.tables float json keys hkeys) lexsort batchSize)
          Catalog.new sel = .ok out ∧ resultRows out = sel.window all ∧
        all.Perm (scanRows clock (schema sig) (sel.pushed clock) rows)) ∧
    (¬ Scannable clock (schema sig) (sel.pushed clock) rows →
      ∃ e, execute (readEnv clock (s.tables float json keys hkeys) lexsort batchSize)
        Catalog.new sel = .error e) := by
  have hperm :
      (sel.candidates clock (s.tables float json keys hkeys) Catalog.new sig).Perm rows := by
    rw [SelectStatement.candidates, partitionFilter_new, ← Multiset.coe_eq_coe,
      resultRows_tables float json s keys hkeys hcover sig, hrows]
  rw [← scannable_perm clock (schema sig) (sel.pushed clock) _ _ hperm]
  obtain ⟨hscan, out, hout, hwindow⟩ | ⟨hnot, herr⟩ :=
    execute_rows clock (s.tables float json keys hkeys) lexsort Catalog.new sel hsel.joins
      hsel.streaming hsel.skip sig hsel.table hsel.rowWise batchSize hsize
  · refine ⟨fun _ => ?_, fun h => absurd hscan h⟩
    exact ⟨out, _, hout, hwindow, scanRows_perm clock _ _ _ _ hperm⟩
  · exact ⟨fun h => absurd h hnot, fun _ => herr⟩

end Statements

theorem rowStatement_severity (text : String) :
    RowStatement 0 (logsWhere (severityIs text)) .log where
  joins := rfl
  streaming := ⟨rfl, rfl⟩
  skip := rfl
  table := rfl
  rowWise := rowWise_severity text

def plainAndError : List Record := [log 5, .log (severe 7 "ERROR")]

def writeTwoAndClose : List (Action Unit Record) :=
  [.begin () plainAndError, .fetch (), .append (), .insert (), .test (), .fetch (), .append (),
    .insert (), .test (), .finish (), .close, .listKeys, .remove, .send, .ret, .recv, .flush,
    .flush, .flush, .checkpoint]

theorem writeTwoAndClose_run :
    ∃ t, run (step defaultConfig.env) (Engine.open defaultConfig.env) writeTwoAndClose = some t ∧
      t.closer = .returned ∧ t.queue = [] ∧ t.worker = none ∧
      t.sstables.map SSTable.partition = [0] ∧ t.acked = plainAndError ∧
      t.written = plainAndError :=
  ⟨_, rfl, rfl, rfl, rfl, rfl, rfl, rfl⟩

theorem cellsOf_plainAndError (float : F64 → Exact) :
    cellsOf float noJson (plainAndError.filter fun r => r.NoAnyValue) .log =
      ([LogRecord.bare 5 none, severe 7 "ERROR"].map (signalRow noJson .log)).map
        (rowCells float .log) := rfl

theorem scanRows_plainAndError (float : F64 → Exact) :
    scanRows 0 (schema .log) ((logsWhere (severityIs "ERROR")).pushed 0)
        (cellsOf float noJson (plainAndError.filter fun r => r.NoAnyValue) .log) =
      [rowCells float .log (signalRow noJson .log (severe 7 "ERROR"))] := by
  rw [cellsOf_plainAndError, scanRows_severity]
  rfl

end InfraLens.Storage
