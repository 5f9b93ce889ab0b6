import InfraLens.Aggregate
import InfraLens.Eval
import InfraLens.LibCut
import InfraLens.LibPull
import InfraLens.SSTableDir

/-! The executor (executor/*.rs): operators that pull batches from their children, built from a
plan, and the tables they read. A scan loads its batches when it is built. -/
namespace InfraLens.Query
open Schema Arrow Model LibPull

variable {F : Type}

/-! ### Tables -/

/-- An SSTable: its zone map, and what reading its Parquet file yields, batch by batch. -/
structure SSTableFile (F : Type) where
  zoneMap : Tables.ZoneMap
  batches : List (Except String (RecordBatch F))

/-- The SSTables of one signal in the partitions the engine knows, in the order its map goes
through them. -/
structure Partitions (F : Type) where
  entries : List (UInt64 × List (SSTableFile F))
  nodup : (entries.map Prod.fst).Nodup

def Partitions.get (p : Partitions F) (key : UInt64) : List (SSTableFile F) :=
  ((p.entries.find? fun e => e.1 = key).map Prod.snd).getD []

/-- `sstable_paths_for_signal`: an empty filter means every partition, and a key that the
filter has twice is looked up twice. -/
def Partitions.sstablePaths (p : Partitions F) (partitionFilter : List UInt64) :
    List (SSTableFile F) :=
  (if partitionFilter.isEmpty then p.entries.map Prod.fst else partitionFilter).flatMap p.get

abbrev Storage (F : Type) := SignalType → Partitions F

/-- `signal_for_table` and the schema lookup, which refuse the same tables. -/
def signalForTable (table : String) : Res SignalType :=
  match table with
  | "logs" => .ok .log
  | "metrics" => .ok .metric
  | "traces" => .ok .span
  | other => .error (.error (.bind ("unknown table '" ++ other ++ "'")))

/-! ### Arrow kernels of the operators -/

/-- A column to sort by; nulls come last. -/
structure SortColumn (F : Type) where
  values : ArrayRef F
  descending : Bool

def concatArrays : List (ArrayRef F) → Res (ArrayRef F)
  | [] => arrowError .invalidBatch
  | [a] => .ok a
  | a :: as => do
    let rest ← concatArrays as
    if h : rest.dataType = a.dataType then .ok ⟨a.dataType, a.slots ++ h ▸ rest.slots⟩
    else arrowError .invalidBatch

/-- `batch.column(i)`, out of bounds if there is none. -/
def columnAt (i : Nat) (b : RecordBatch F) : Res (ArrayRef F) :=
  match b.columns[i]? with
  | some c => .ok c
  | none => .error .panic

def concatBatches (schema : List Field) (batches : List (RecordBatch F)) :
    Res (RecordBatch F) :=
  -- without fields only the rows are counted
  if schema.isEmpty then
    .ok ⟨[], (batches.map RecordBatch.numRows).sum, [], rfl, by simp, by simp⟩
  else do
    let columns ← (List.range schema.length).mapM fun i => do
      concatArrays (← batches.mapM (columnAt i))
    tryNew schema columns

/-- `take_record_batch`, out of bounds for an index that is no row. -/
def takeRecordBatch (b : RecordBatch F) (indices : List Nat) : Res (RecordBatch F) :=
  if h : ∀ i ∈ indices, i < b.numRows then
    .ok (b.mapColumns indices.length (fun c => ⟨c.dataType, indices.filterMap (c.slots[·]?)⟩)
      (fun _ => rfl)
      (fun c hc => by
        have hsome : ∀ i ∈ indices, (c.slots[i]?).isSome = true := by
          intro i hi
          have hlen : i < c.slots.length := by
            have hsized := b.sized c hc
            rw [ArrayRef.len] at hsized
            exact hsized ▸ h i hi
          rw [List.getElem?_eq_getElem hlen]
          rfl
        rw [ArrayRef.len, List.filterMap_length_eq_length.mpr hsome])
      (fun c hc s hs => by
        obtain ⟨i, _, hi⟩ := List.mem_filterMap.mp hs
        exact hc s (List.mem_of_getElem? hi)))
  else .error .panic

/-! ### Operators -/

/-- What an execution reads besides the plan: the clock, the tables, and the order
`lexsort_to_indices` finds for some columns. -/
structure Env (F : Type) where
  clock : Int64
  storage : Storage F
  lexsort : List (SortColumn F) → Res (List Nat)

section Operators
variable [FloatOps F]

def applyPredicate (clock : Int64) (b : RecordBatch F) (pred : Expr F) : Res (RecordBatch F) := do
  let mask ← evalFilter clock b pred
  filterRecordBatch b mask

omit [FloatOps F] in
def nonEmpty (b : RecordBatch F) : Option (RecordBatch F) := if 0 < b.numRows then some b else none

def selected (clock : Int64) (predicate : Expr F) (b : RecordBatch F) :
    Res (Option (RecordBatch F)) :=
  (applyPredicate clock b predicate).map nonEmpty

omit [FloatOps F] in
def readBatch (r : Except String (RecordBatch F)) : Res (RecordBatch F) :=
  match r with
  | .ok b => .ok b
  | .error msg => execution msg

/-- The loop of `load_batches` over what the files yield. -/
def loadAll (clock : Int64) (predicate : Option (Expr F)) :
    List (Except String (RecordBatch F)) → Res (List (RecordBatch F))
  | [] => .ok []
  | r :: rs => do
    let batch ← readBatch r
    match predicate with
    | some pred => do
      let filtered ← selected clock pred batch
      let rest ← loadAll clock predicate rs
      pure (filtered.toList ++ rest)
    | none => do
      let rest ← loadAll clock predicate rs
      pure (batch :: rest)

omit [FloatOps F] in
/-- The scan's limit: batches are kept until they have that many rows. -/
def retain (limit : Nat) : Nat → List (RecordBatch F) → List (RecordBatch F)
  | _, [] => []
  | total, b :: bs =>
    if limit ≤ total then retain limit total bs else b :: retain limit (total + b.numRows) bs

omit [FloatOps F] in
def retainLimit (limit : Option UInt64) (bs : List (RecordBatch F)) : List (RecordBatch F) :=
  match limit with
  | some n => retain n.toNat 0 bs
  | none => bs

def loadBatches (env : Env F) (op : ScanOp F) : Res (List (RecordBatch F)) := do
  let signal ← signalForTable op.table
  let files := (env.storage signal).sstablePaths op.partitionFilter
  let all ← loadAll env.clock op.predicate (files.flatMap SSTableFile.batches)
  pure (retainLimit op.limit all)

/-- `FilterOperator::poll_next`. -/
def filterOperator (clock : Int64) (predicate : Expr F) (child : Pull Stop (RecordBatch F)) :
    Pull Stop (RecordBatch F) :=
  child.filterMapM (selected clock predicate)

omit [FloatOps F] in
/-- One batch of `LimitOperator::poll_next`; the state is what remains and what to skip. -/
def limitStep (s : Nat × Nat) (b : RecordBatch F) :
    Except Stop ((Nat × Nat) × Option (RecordBatch F)) :=
  if b.numRows ≤ s.2 then .ok ((s.1, s.2 - b.numRows), none)
  else
    let batch := if 0 < s.2 then b.slice s.2 (b.numRows - s.2) else b
    let take := min batch.numRows s.1
    .ok ((s.1 - take, 0), some (batch.slice 0 take))

omit [FloatOps F] in
def limitOperator (n offset : Nat) (child : Pull Stop (RecordBatch F)) :
    Pull Stop (RecordBatch F) :=
  child.transduce (fun s => s.1 == 0) limitStep (n, offset)

/-- An operator that drains its child before it returns anything. -/
def blocking (f : List (RecordBatch F) → Res (List (RecordBatch F)))
    (child : Pull Stop (RecordBatch F)) : Pull Stop (RecordBatch F) :=
  match child.collect >>= f with
  | .ok bs => Pull.ofList bs
  | .error s => .fail s

def aggregateOperator (keys : List (Expr F)) (aggregates : List (AggExpr F)) :
    Pull Stop (RecordBatch F) → Pull Stop (RecordBatch F) :=
  blocking fun bs => (compute keys aggregates bs).map ([·])

omit [FloatOps F] in
/-- Only keys that are columns of the batch are sorted by. -/
def sortColumns (keys : List (Expr F × Bool)) (b : RecordBatch F) : List (SortColumn F) :=
  keys.filterMap fun k =>
    match k.1 with
    | .column _ name => (b.column? name).map fun c => ⟨c, !k.2⟩
    | _ => none

omit [FloatOps F] in
/-- `SortOperator::materialize`, from the batches of the child on. -/
def materialize (lexsort : List (SortColumn F) → Res (List Nat)) (keys : List (Expr F × Bool)) :
    List (RecordBatch F) → Res (List (RecordBatch F))
  | [] => .ok []
  | b :: bs => do
    let concat ← concatBatches b.schema (b :: bs)
    let columns := sortColumns keys concat
    if columns.isEmpty then pure [concat]
    else do
      let indices ← lexsort columns
      let sorted ← takeRecordBatch concat indices
      pure [sorted]

omit [FloatOps F] in
def sortOperator (lexsort : List (SortColumn F) → Res (List Nat)) (keys : List (Expr F × Bool)) :
    Pull Stop (RecordBatch F) → Pull Stop (RecordBatch F) :=
  blocking (materialize lexsort keys)

/-- `build_logical`. A projection has no operator of its own. -/
def build (env : Env F) : LogicalPlan F → Res (Pull Stop (RecordBatch F))
  | .scan op => (loadBatches env op).map Pull.ofList
  | .filter predicate input => (build env input).map (filterOperator env.clock predicate)
  | .aggregate keys aggregates input => (build env input).map (aggregateOperator keys aggregates)
  | .sort keys input => (build env input).map (sortOperator env.lexsort keys)
  | .limit n offset input => (build env input).map (limitOperator n.toNat offset.toNat)
  | .project _ input => build env input
  | .join _ _ _ _ => execution
      "cross-table JOIN requires distributed executor (Phase 3 local scope: single-table)"

def executePlan (env : Env F) (plan : LogicalPlan F) : Res (List (RecordBatch F)) := do
  (← build env plan).collect

/-- `execute`, from the parsed statement on. -/
def execute (env : Env F) (catalog : Catalog) (sel : SelectStatement F) :
    Res (List (RecordBatch F)) :=
  executePlan env (optimize env.clock catalog (planSelect sel))

end Operators

def resultRows (bs : List (RecordBatch F)) : List (List (Cell F)) := bs.flatMap RecordBatch.rows

theorem length_resultRows_cons (b : RecordBatch F) (bs : List (RecordBatch F)) :
    (resultRows (b :: bs)).length = b.numRows + (resultRows bs).length := by
  rw [← length_rows b]
  exact List.length_append

theorem retain_eq_cut (n total : Nat) (bs : List (RecordBatch F)) :
    retain n total bs = LibCut.cut RecordBatch.numRows n total bs := by
  induction bs generalizing total with
  | nil => rfl
  | cons b bs ih => rw [retain, LibCut.cut, ih, ih]

/-! ### Stored logs -/

def logCells (timestampNs : UInt64) (body : String) : List (Cell Exact) :=
  [⟨.uint64, .valid timestampNs⟩, ⟨.uint64, .valid timestampNs⟩, ⟨.binary, .null []⟩,
    ⟨.binary, .null []⟩, ⟨.int32, .valid 9⟩, ⟨.utf8, .null ""⟩, ⟨.utf8, .valid body⟩,
    ⟨.utf8, .null ""⟩, ⟨.utf8, .null ""⟩, ⟨.utf8, .null ""⟩, ⟨.utf8, .null ""⟩, ⟨.utf8, .null ""⟩]

def logBatch (timestampNs : UInt64) (body : String) : RecordBatch Exact :=
  RecordBatch.ofRow logSchema (logCells timestampNs body)
    ⟨rfl, by simp [logSchema, logCells, Slot.isNull]⟩

def logFile (timestampNs : UInt64) (body : String) : SSTableFile Exact :=
  ⟨⟨timestampNs, timestampNs, 1⟩, [.ok (logBatch timestampNs body)]⟩

def logsEnv (key : UInt64) (files : List (SSTableFile Exact)) : Env Exact where
  clock := 0
  storage signal := if signal = .log then ⟨[(key, files)], List.nodup_singleton key⟩ else ⟨[], .nil⟩
  lexsort _ := .ok []

end InfraLens.Query
