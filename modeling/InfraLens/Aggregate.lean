import InfraLens.Plan
import InfraLens.Sql

/-! The aggregate operator (executor/aggregate.rs) on the batches it has drained from its
child, and what grouping by keys means. -/
namespace InfraLens.Query
open Schema Arrow

variable {F : Type}

/-! ### Output schema and accumulators -/

def exprName : Expr F → String
  | .column _ name => name
  | _ => "key"

/-- The schema `AggregateOperator::new` builds: every key is `Int64`. -/
def outSchema (keys : List (Expr F)) (aggregates : List (AggExpr F)) : List Field :=
  keys.map (fun k => ⟨exprName k, .int64, true⟩) ++
    aggregates.map fun a => ⟨a.aliasName, if a.func = "count" then .int64 else .float64, false⟩

section Compute
variable [FloatOps F]

structure GroupState (F : Type) where
  count : Nat
  sum : F
  min : F
  max : F

def GroupState.default : GroupState F :=
  ⟨0, FloatOps.ofInt 0, FloatOps.ofInt 0, FloatOps.ofInt 0⟩

def floatLt (a b : F) : Bool := FloatOps.partialCmp a b == some .lt

def GroupState.accumulate (s : GroupState F) (func : String) (val : Option F) : GroupState F :=
  match val with
  | none => s
  | some v =>
    match func with
    | "sum" | "avg" => { s with sum := FloatOps.add s.sum v }
    | "min" => if floatLt v s.min || s.count = 0 then { s with min := v } else s
    | "max" => if floatLt s.max v || s.count = 0 then { s with max := v } else s
    | _ => s

def GroupState.finalize (s : GroupState F) (func : String) : F :=
  match func with
  | "count" => FloatOps.ofInt s.count
  | "sum" => s.sum
  | "avg" =>
    if 0 < s.count then FloatOps.div s.sum (FloatOps.ofInt s.count) else FloatOps.ofInt 0
  | "min" => s.min
  | "max" => s.max
  | _ => FloatOps.ofInt 0

omit [FloatOps F] in
/-- The key of a row, whatever the group-by keys are: the first column if it is `UInt64`. -/
def extractGroupKey (b : RecordBatch F) (row : Nat) : Res String :=
  match b.columns with
  | [] => .error .panic
  | c :: _ =>
    match c.uint64? with
    | some xs =>
      match xs[row]? with
      | some x => .ok (toString x.value.toNat)
      | none => .error .panic
    | none => .ok "?"

/-- A numeric slot as `f64`, its null forgotten. -/
def cellF64 : Cell F → Option F
  | ⟨.float64, x⟩ => some x.value
  | ⟨.int64, x⟩ => some (FloatOps.ofInt x.value.toInt)
  | ⟨.uint64, x⟩ => some (FloatOps.ofInt x.value.toNat)
  | _ => none

def extractF64 (b : RecordBatch F) (row : Nat) : Option (Expr F) → Option F
  | some (.column _ name) => do
    let c ← b.column? name
    cellF64 (← c.cells[row]?)
  | _ => none

/-- `compute_scalar_agg` reads `Float64` and `Int64` columns. -/
def scalarValues : ArrayRef F → List F
  | ⟨.float64, xs⟩ => xs.map Slot.value
  | ⟨.int64, xs⟩ => xs.map fun x => FloatOps.ofInt x.value.toInt
  | _ => []

/-- The value `compute_scalar_agg` reads of a cell, if it reads its type at all. -/
def scalarCell? : Cell F → Option F
  | ⟨.float64, x⟩ => some x.value
  | ⟨.int64, x⟩ => some (FloatOps.ofInt x.value.toInt)
  | _ => none

theorem scalarValues_eq (a : ArrayRef F) : scalarValues a = a.cells.filterMap scalarCell? := by
  obtain ⟨t, xs⟩ := a
  simp only [ArrayRef.cells, List.filterMap_map]
  cases t <;> simp [scalarValues, scalarCell?, Function.comp_def]

def scalarColumns (name : String) : List (RecordBatch F) → Res (List F)
  | [] => .ok []
  | b :: bs =>
    match b.column? name with
    | some c => (scalarColumns name bs).map (scalarValues c ++ ·)
    | none => execution ("column '" ++ name ++ "' not found")

def scalarStep (func : String) (acc v : F) : F :=
  match func with
  | "sum" | "avg" => FloatOps.add acc v
  | "min" => if floatLt v acc then v else acc
  | "max" => if floatLt acc v then v else acc
  | _ => acc

def scalarStart (func : String) : F :=
  match func with
  | "min" => FloatOps.infinity
  | "max" => FloatOps.negInfinity
  | _ => FloatOps.ofInt 0

def computeScalarAgg (batches : List (RecordBatch F)) (func : String) :
    Option (Expr F) → Res F
  | some (.column _ name) => do
    let vals ← scalarColumns name batches
    let acc := vals.foldl (scalarStep func) (scalarStart func)
    pure (if func = "avg" then
      if 0 < vals.length then FloatOps.div acc (FloatOps.ofInt vals.length) else FloatOps.ofInt 0
    else acc)
  | _ => .ok (FloatOps.ofInt 0)

/-! ### The operator -/

def scalarColumn (batches : List (RecordBatch F)) (agg : AggExpr F) : Res (ArrayRef F) :=
  if agg.func = "count" then
    .ok ⟨.int64, [.valid (Int64.ofNat (batches.map RecordBatch.numRows).sum)]⟩
  else if agg.func ∈ ["sum", "avg", "min", "max"] then
    (computeScalarAgg batches agg.func agg.arg).map fun v => ⟨.float64, [.valid v]⟩
  else .ok ⟨.float64, [.valid (FloatOps.ofInt 0)]⟩

/-- The groups by key. The order a `HashMap` goes through them in is not modelled: they are in
order of first occurrence. -/
abbrev Groups (F : Type) := List (String × GroupState F)

def updateGroup (key : String) (f : GroupState F → GroupState F) : Groups F → Groups F
  | [] => [(key, f GroupState.default)]
  | (k, s) :: groups =>
    if k = key then (k, f s) :: groups else (k, s) :: updateGroup key f groups

def accumulateRow (aggregates : List (AggExpr F)) (b : RecordBatch F) (groups : Groups F)
    (row : Nat) : Res (Groups F) := do
  let key ← extractGroupKey b row
  pure (updateGroup key (fun s =>
    let s := aggregates.foldl (fun s a => s.accumulate a.func (extractF64 b row a.arg)) s
    { s with count := s.count + 1 }) groups)

def accumulateBatch (aggregates : List (AggExpr F)) (groups : Groups F) (b : RecordBatch F) :
    Res (Groups F) :=
  (List.range b.numRows).foldlM (accumulateRow aggregates b) groups

omit [FloatOps F] in
/-- The string builders, of which only the first is filled. -/
def keyColumns (keys : List (Expr F)) (groups : Groups F) : List (ArrayRef F) :=
  match keys with
  | [] => []
  | _ :: keys => ⟨.utf8, groups.map fun g => .valid g.1⟩ :: keys.map fun _ => ⟨.utf8, []⟩

def aggregateColumns (aggregates : List (AggExpr F)) (groups : Groups F) : List (ArrayRef F) :=
  aggregates.map fun a => ⟨.float64, groups.map fun g => .valid (g.2.finalize a.func)⟩

/-- `AggregateOperator::compute`, from the batches of the child on. -/
def compute (keys : List (Expr F)) (aggregates : List (AggExpr F))
    (batches : List (RecordBatch F)) : Res (RecordBatch F) :=
  if batches.isEmpty then .ok (RecordBatch.empty (outSchema keys aggregates))
  else if keys.isEmpty then do
    let columns ← aggregates.mapM (scalarColumn batches)
    tryNew (outSchema keys aggregates) columns
  else do
    let groups ← batches.foldlM (accumulateBatch aggregates) []
    tryNew (outSchema keys aggregates)
      (keyColumns keys groups ++ aggregateColumns aggregates groups)

end Compute

/-! ### Grouping by keys -/

def inputRows (batches : List (RecordBatch F)) : List (List Field × List (Cell F)) :=
  batches.flatMap fun b => b.rows.map fun row => (b.schema, row)

def keyTuple (keys : List (Expr F)) (row : List Field × List (Cell F)) :
    List (Option (Datum F)) :=
  keys.map fun k =>
    match k with
    | .column _ name => (cell? row.1 row.2 name).bind datum
    | _ => none

/-- One row for each distinct tuple of the keys, with the tuple and, whatever the aggregates
are, their values over the rows that have it. -/
def GroupedBy [DecidableEq F]
    (value : AggExpr F → List (List Field × List (Cell F)) → Option (Datum F))
    (keys : List (Expr F)) (aggregates : List (AggExpr F))
    (rows : List (List Field × List (Cell F))) (out : RecordBatch F) : Prop :=
  (out.rows.map fun row => row.map datum).Perm ((rows.map (keyTuple keys)).dedup.map fun t =>
    t ++ aggregates.map fun a => value a (rows.filter fun r => keyTuple keys r = t))

section GroupBy
variable [FloatOps F]

theorem tryNew_groups (key : Expr F) (keys : List (Expr F)) (aggregates : List (AggExpr F))
    (groups : Groups F) (out : RecordBatch F) :
    tryNew (outSchema (key :: keys) aggregates)
      (keyColumns (key :: keys) groups ++ aggregateColumns aggregates groups) ≠ .ok out := by
  intro h
  have htypes := typed_of_tryNew _ _ out h
  simp [keyColumns, outSchema] at htypes

theorem compute_groups_fails (key : Expr F) (keys : List (Expr F))
    (aggregates : List (AggExpr F)) (batches : List (RecordBatch F)) (h : batches ≠ [])
    (out : RecordBatch F) : compute (key :: keys) aggregates batches ≠ .ok out := by
  intro hok
  have hbatches : batches.isEmpty = false := List.isEmpty_eq_false_iff.mpr h
  rw [compute, hbatches] at hok
  cases hgroups : batches.foldlM (accumulateBatch aggregates) [] with
  | error s =>
    simp only [hgroups] at hok
    cases hok
  | ok groups =>
    simp only [hgroups] at hok
    exact tryNew_groups key keys aggregates groups out hok

/-- GROUP BY groups by its keys exactly when there is no batch to group. -/
theorem group_by_iff [DecidableEq F]
    (value : AggExpr F → List (List Field × List (Cell F)) → Option (Datum F)) (key : Expr F)
    (keys : List (Expr F)) (aggregates : List (AggExpr F)) (batches : List (RecordBatch F)) :
    (∃ out, compute (key :: keys) aggregates batches = .ok out ∧
        GroupedBy value (key :: keys) aggregates (inputRows batches) out) ↔ batches = [] := by
  constructor
  · intro ⟨out, hok, _⟩
    by_contra hne
    exact compute_groups_fails key keys aggregates batches hne out hok
  · intro hnil
    subst hnil
    refine ⟨RecordBatch.empty _, rfl, ?_⟩
    have hrows :
        (RecordBatch.empty (outSchema (key :: keys) aggregates) : RecordBatch F).rows = [] :=
      List.eq_nil_of_length_eq_zero (length_rows _)
    rw [GroupedBy, hrows]
    exact List.Perm.refl _

end GroupBy

def oneTimestamp : RecordBatch Exact where
  schema := [⟨"timestamp_ns", .uint64, false⟩]
  numRows := 1
  columns := [⟨.uint64, [.valid 7]⟩]
  typed := rfl
  sized := by simp [ArrayRef.len]
  nonNull := by simp [ArrayRef.NoNulls, Slot.isNull]

/-- `SELECT count(*) … GROUP BY timestamp_ns` over one row is an error. -/
theorem group_by_refused :
    (inputRows [oneTimestamp]).length = 1 ∧
      compute [.column none "timestamp_ns"] [⟨"count", none, "count"⟩] [oneTimestamp] =
        arrowError .invalidBatch :=
  ⟨rfl, rfl⟩

end InfraLens.Query
