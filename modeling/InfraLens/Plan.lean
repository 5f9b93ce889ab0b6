import InfraLens.Ast

/-! Plans and how they are made: the planner (planner.rs), the catalog's statistics
(catalog.rs) and the rewrites of the optimizer (optimizer/rules.rs). Where a rewrite only
goes on to the children of a node (`map_children`), the cases are written out. -/
namespace InfraLens.Query
open Arrow

variable {F : Type}

/-! ### Logical plans -/

/-- A scan; an empty partition filter means every partition. -/
structure ScanOp (F : Type) where
  table : String
  predicate : Option (Expr F)
  projection : Option (List String)
  partitionFilter : List UInt64
  limit : Option UInt64

structure AggExpr (F : Type) where
  func : String
  arg : Option (Expr F)
  aliasName : String

inductive LogicalPlan (F : Type) where
  | scan (op : ScanOp F)
  | filter (predicate : Expr F) (input : LogicalPlan F)
  | project (columns : List String) (input : LogicalPlan F)
  | aggregate (keys : List (Expr F)) (aggregates : List (AggExpr F)) (input : LogicalPlan F)
  | sort (keys : List (Expr F × Bool)) (input : LogicalPlan F)
  | limit (n offset : UInt64) (input : LogicalPlan F)
  | join (kind : JoinKind) (left right : LogicalPlan F) (condition : Expr F)

/-! ### The planner -/

def lowercase (s : String) : String := String.ofList (s.toList.map Char.toLower)

def aggFns : List String := ["count", "sum", "avg", "min", "max"]

def extractAggregates (projections : List (Projection F)) : List (AggExpr F) :=
  projections.filterMap fun p =>
    match p with
    | .expr (.function name args) aliasName =>
      if lowercase name ∈ aggFns then some ⟨lowercase name, args.head?, aliasName.getD name⟩
      else none
    | _ => none

def projectedColumns (projections : List (Projection F)) : List String :=
  projections.filterMap fun p =>
    match p with
    | .expr (.column _ name) aliasName => some (aliasName.getD name)
    | .expr _ (some aliasName) => some aliasName
    | _ => none

def ScanOp.of (table : String) (limit : Option UInt64) : ScanOp F :=
  ⟨table, none, none, [], limit⟩

def planJoins (joins : List (JoinClause F)) (plan : LogicalPlan F) : LogicalPlan F :=
  joins.foldl (fun plan j =>
    .join j.kind plan (.scan (.of j.table.name none)) j.condition) plan

def planFilter (predicate : Option (Expr F)) (plan : LogicalPlan F) : LogicalPlan F :=
  match predicate with
  | some p => .filter p plan
  | none => plan

def planAggregate (sel : SelectStatement F) (plan : LogicalPlan F) : LogicalPlan F :=
  let aggregates := extractAggregates sel.projections
  if aggregates.isEmpty && sel.groupBy.isEmpty then plan
  else .aggregate sel.groupBy aggregates plan

def planProject (sel : SelectStatement F) (plan : LogicalPlan F) : LogicalPlan F :=
  let columns := projectedColumns sel.projections
  if columns.isEmpty then plan else .project columns plan

def planSort (sel : SelectStatement F) (plan : LogicalPlan F) : LogicalPlan F :=
  if sel.orderBy.isEmpty then plan
  else .sort (sel.orderBy.map fun o => (o.expr, o.asc)) plan

def planLimit (sel : SelectStatement F) (plan : LogicalPlan F) : LogicalPlan F :=
  match sel.limit with
  | some n => .limit n (sel.offset.getD 0) plan
  | none => plan

/-- `plan_select`. The limit of the statement is given to the scan as well. -/
def planSelect (sel : SelectStatement F) : LogicalPlan F :=
  planLimit sel <| planSort sel <| planProject sel <| planFilter sel.having <|
    planAggregate sel <| planFilter sel.filter <| planJoins sel.joins <|
      .scan (.of sel.table.name sel.limit)

/-! ### Rewrites -/

def fits (n : Int) : Option Int64 := (checked n).toOption

/-- The integer operations done at plan time. -/
def foldInts (op : BinOp) (a b : Int64) : Option Int64 :=
  match op with
  | .add => fits (a.toInt + b.toInt)
  | .sub => fits (a.toInt - b.toInt)
  | .mul => fits (a.toInt * b.toInt)
  | .div => if b = 0 then none else fits (a.toInt.tdiv b.toInt)
  -- `checked_rem` also refuses the one pair whose quotient does not fit
  | .mod => if b = 0 then none else (fits (a.toInt.tdiv b.toInt)).map fun _ =>
      Int64.ofInt (a.toInt.tmod b.toInt)
  | _ => none

def foldBinOp (op : BinOp) (l r : Expr F) : Expr F :=
  match l, r with
  | .literal (.int a), .literal (.int b) =>
    match foldInts op a b with
    | some v => .literal (.int v)
    | none => .binOp op l r
  | _, _ => .binOp op l r

/-- `fold_expr`, with the clock fixed. -/
def foldExpr (clock : Int64) : Expr F → Expr F
  | .function "now" [] => .literal (.int clock)
  | .binOp op left right => foldBinOp op (foldExpr clock left) (foldExpr clock right)
  | other => other

/-- `fold_constants`: the predicates of filters and scans. -/
def foldConstants (clock : Int64) : LogicalPlan F → LogicalPlan F
  | .filter predicate input => .filter (foldExpr clock predicate) (foldConstants clock input)
  | .scan op => .scan { op with predicate := op.predicate.map (foldExpr clock) }
  | .project columns input => .project columns (foldConstants clock input)
  | .aggregate keys aggregates input => .aggregate keys aggregates (foldConstants clock input)
  | .sort keys input => .sort keys (foldConstants clock input)
  | .limit n offset input => .limit n offset (foldConstants clock input)
  | .join kind left right condition =>
    .join kind (foldConstants clock left) (foldConstants clock right) condition

/-- A filter over a scan becomes the predicate of the scan, whatever predicate that had. -/
def pushFilter (predicate : Expr F) : LogicalPlan F → LogicalPlan F
  | .scan op => .scan { op with predicate := some predicate }
  | other => .filter predicate other

def predicatePushdown : LogicalPlan F → LogicalPlan F
  | .filter predicate input => pushFilter predicate (predicatePushdown input)
  | .scan op => .scan op
  | .project columns input => .project columns (predicatePushdown input)
  | .aggregate keys aggregates input => .aggregate keys aggregates (predicatePushdown input)
  | .sort keys input => .sort keys (predicatePushdown input)
  | .limit n offset input => .limit n offset (predicatePushdown input)
  | .join kind left right condition =>
    .join kind (predicatePushdown left) (predicatePushdown right) condition

def pushProjection (columns : List String) : LogicalPlan F → LogicalPlan F
  | .scan op => .project columns (.scan
      { op with projection := some (op.projection.getD columns) })
  | other => .project columns other

def projectionPushdown : LogicalPlan F → LogicalPlan F
  | .project columns input => pushProjection columns (projectionPushdown input)
  | .scan op => .scan op
  | .filter predicate input => .filter predicate (projectionPushdown input)
  | .aggregate keys aggregates input => .aggregate keys aggregates (projectionPushdown input)
  | .sort keys input => .sort keys (projectionPushdown input)
  | .limit n offset input => .limit n offset (projectionPushdown input)
  | .join kind left right condition =>
    .join kind (projectionPushdown left) (projectionPushdown right) condition

/-! ### Statistics and partition pruning -/

structure TableStats where
  partitionKey : UInt64
  minTimestampNs : UInt64
  maxTimestampNs : UInt64
  rowCount : Nat

/-- The statistics of the tables; `none` for a table the catalog does not know. -/
structure Catalog where
  stats : String → Option (List TableStats)

def Catalog.new : Catalog where
  stats table := if table ∈ ["logs", "metrics", "traces"] then some [] else none

def Catalog.overlappingPartitions (c : Catalog) (table : String) (startNs endNs : UInt64) :
    List UInt64 :=
  match c.stats table with
  | some stats =>
    (stats.filter fun s => s.minTimestampNs ≤ endNs && s.maxTimestampNs ≥ startNs).map
      TableStats.partitionKey
  | none => []

def isTs : Expr F → Bool
  | .column _ name => name == "timestamp_ns"
  | _ => false

def asU64 : Expr F → Option UInt64
  | .literal (.int n) => some n.toUInt64
  | _ => none

/-- `extract_time_range`. Of a conjunction of two ranges it takes the start of the left one
and the end of the right one. -/
def extractTimeRange : Expr F → Option (UInt64 × UInt64)
  | .binOp .and left right =>
    match extractTimeRange left, extractTimeRange right with
    | some (ls, _), some (_, re) => some (ls, re)
    | some v, none => some v
    | none, some v => some v
    | none, none => none
  | .binOp .gtEq left right =>
    if isTs left then (asU64 right).map fun v => (v, 0xFFFFFFFFFFFFFFFF) else none
  | .binOp .ltEq left right => if isTs left then (asU64 right).map fun v => (0, v) else none
  | .between expr low high =>
    if isTs expr then
      match asU64 low, asU64 high with
      | some lo, some hi => some (lo, hi)
      | _, _ => none
    else none
  | _ => none

def pruneScan (catalog : Catalog) (op : ScanOp F) : ScanOp F :=
  match op.predicate.bind extractTimeRange with
  | some (startNs, endNs) =>
    { op with partitionFilter := catalog.overlappingPartitions op.table startNs endNs }
  | none => op

def partitionPrune (catalog : Catalog) : LogicalPlan F → LogicalPlan F
  | .scan op => .scan (pruneScan catalog op)
  | .filter predicate input => .filter predicate (partitionPrune catalog input)
  | .project columns input => .project columns (partitionPrune catalog input)
  | .aggregate keys aggregates input => .aggregate keys aggregates (partitionPrune catalog input)
  | .sort keys input => .sort keys (partitionPrune catalog input)
  | .limit n offset input => .limit n offset (partitionPrune catalog input)
  | .join kind left right condition =>
    .join kind (partitionPrune catalog left) (partitionPrune catalog right) condition

def optimize (clock : Int64) (catalog : Catalog) (plan : LogicalPlan F) : LogicalPlan F :=
  partitionPrune catalog (projectionPushdown (predicatePushdown (foldConstants clock plan)))

end InfraLens.Query
