import InfraLens.Ast
import Mathlib.Data.List.Sort

/-! The expression evaluator (functions/eval.rs) and the temporal functions
(functions/temporal.rs) on whole batches. A sub-expression is given to an operation as the
result of its evaluation, which the operation inspects in the order of the source. -/
namespace InfraLens.Query
open Schema Arrow

variable {F : Type}

/-- The kernel a comparison operator stands for, on the order of its operands. -/
def BinOp.comparison : BinOp → Option (Ordering → Bool)
  | .eq => some (· == .eq)
  | .notEq => some (· != .eq)
  | .lt => some (· == .lt)
  | .ltEq => some (· != .gt)
  | .gt => some (· == .gt)
  | .gtEq => some (· != .lt)
  | _ => none

/-- The types `compare_arrays` compares, with arrow's order on them. -/
def comparator [FloatOps F] : (t : DataType) → Option (Value F t → Value F t → Ordering)
  | .uint64 => some fun (a b : UInt64) => compareOfLessAndEq a b
  | .int64 => some fun (a b : Int64) => compareOfLessAndEq a b
  | .float64 => some fun (a b : F) => FloatOps.totalCmp a b
  | .utf8 => some fun (a b : String) => compareOfLessAndEq a b
  | _ => none

def dataTypeName : DataType → String
  | .uint64 => "UInt64"
  | .int64 => "Int64"
  | .int32 => "Int32"
  | .int8 => "Int8"
  | .float64 => "Float64"
  | .utf8 => "Utf8"
  | .binary => "Binary"
  | .boolean => "Boolean"

def unsupportedComparison {α : Type} (l r : DataType) : Res α :=
  execution ("unsupported comparison between " ++ dataTypeName l ++ " and " ++ dataTypeName r)

def compareArrays [FloatOps F] (l r : ArrayRef F) (op : BinOp) : Res (List (Slot Bool)) :=
  match op.comparison, comparator l.dataType with
  | some test, some cmp =>
    if h : r.dataType = l.dataType then
      binary (fun a b => test (cmp a b)) l.slots (h ▸ r.slots)
    else unsupportedComparison l.dataType r.dataType
  | _, _ => unsupportedComparison l.dataType r.dataType

/-- The `Int64` and the `Float64` kernel of an arithmetic operator; `Mod` has none. -/
def BinOp.arithmetic [FloatOps F] : BinOp →
    Option ((Int64 → Int64 → Except ArrowError Int64) × (F → F → F))
  | .add => some (addChecked, FloatOps.add)
  | .sub => some (subChecked, FloatOps.sub)
  | .mul => some (mulChecked, FloatOps.mul)
  | .div => some (divChecked, FloatOps.div)
  | _ => none

def arithmeticArrays [FloatOps F] (l r : ArrayRef F) (op : BinOp) : Res (ArrayRef F) :=
  match (op.arithmetic : Option (_ × (F → F → F))), l, r with
  | some (int, _), ⟨.int64, xs⟩, ⟨.int64, ys⟩ => (tryBinary 0 int xs ys).map (⟨.int64, ·⟩)
  | some (_, float), ⟨.float64, xs⟩, ⟨.float64, ys⟩ =>
    (binary float xs ys).map (⟨.float64, ·⟩)
  | _, _, _ => execution "unsupported arithmetic types"

/-- `-x` on `i64`, where the least value overflows. -/
def negI64 (n : Int64) : Res Int64 := if n = Int64.minValue then .error .panic else .ok (-n)

/-- Unary minus reads the buffer and forgets the nulls. -/
def negateNumeric [FloatOps F] : ArrayRef F → Res (ArrayRef F)
  | ⟨.int64, xs⟩ => (xs.mapM fun x => (negI64 x.value).map Slot.valid).map (⟨.int64, ·⟩)
  | ⟨.float64, xs⟩ => .ok ⟨.float64, xs.map fun x => .valid (FloatOps.neg x.value)⟩
  | _ => execution "unary minus on non-numeric type"

def evalLiteral (lit : Literal F) (nrows : Nat) : ArrayRef F :=
  match lit with
  | .int n => ⟨.int64, List.replicate nrows (.valid n)⟩
  | .float f => ⟨.float64, List.replicate nrows (.valid f)⟩
  | .str s => ⟨.utf8, List.replicate nrows (.valid s)⟩
  | .bool b => ⟨.boolean, List.replicate nrows (.valid b)⟩
  | .null => ⟨.boolean, List.replicate nrows (.null false)⟩
  | .intervalNs n => ⟨.int64, List.replicate nrows (.valid n)⟩

def requireBoolean (a : ArrayRef F) (msg : String) : Res (List (Slot Bool)) :=
  match a.boolean? with
  | some xs => .ok xs
  | none => execution msg

def evalBinop [FloatOps F] (op : BinOp) (left right : Res (ArrayRef F)) : Res (ArrayRef F) := do
  let l ← left
  let r ← right
  match op with
  | .and => do
    let lb ← requireBoolean l "AND: left not boolean"
    let rb ← requireBoolean r "AND: right not boolean"
    (computeAnd lb rb).map booleans
  | .or => do
    let lb ← requireBoolean l "OR: left not boolean"
    let rb ← requireBoolean r "OR: right not boolean"
    (computeOr lb rb).map booleans
  | .add | .sub | .mul | .div | .mod => arithmeticArrays l r op
  | _ => (compareArrays l r op).map booleans

/-! ### LIKE -/

def dotStar : List Char := ['.', '*']

def globToRegex (pattern : List Char) : List Char :=
  (pattern.flatMap fun c => if c = '%' then dotStar else [c]).map
    fun c => if c = '_' then '.' else c

/-- `split(".*")`. -/
def splitStars : List Char → List (List Char)
  | [] => [[]]
  | '.' :: '*' :: rest => [] :: splitStars rest
  | c :: rest =>
    match splitStars rest with
    | [] => [[c]]
    | part :: parts => (c :: part) :: parts

/-- `str::find`. -/
def findPart (part s : List Char) : Option Nat :=
  (List.range (s.length + 1)).find? fun i => part.isPrefixOf (s.drop i)

/-- The loop over the parts: what is left of `s`, or no match. -/
def matchParts (anchored : Bool) : List (Nat × List Char) → List Char → Option (List Char)
  | [], remaining => some remaining
  | (i, part) :: parts, remaining =>
    if part.isEmpty then matchParts anchored parts remaining
    else
      match findPart part remaining with
      | some pos =>
        if i = 0 ∧ anchored ∧ pos ≠ 0 then none
        else matchParts anchored parts (remaining.drop (pos + part.length))
      | none => none

def simpleLikeMatch (s pattern : List Char) : Bool :=
  let parts := splitStars pattern
  if 1 < parts.length then
    match matchParts (!dotStar.isPrefixOf pattern) ((List.range parts.length).zip parts) s with
    | some remaining => dotStar.isSuffixOf pattern || remaining.isEmpty
    | none => false
  else s = pattern

def likeMatch (pattern : String) (negated : Bool) (v : String) : Bool :=
  let m := simpleLikeMatch v.toList (globToRegex pattern.toList)
  if negated then !m else m

/-! ### Temporal functions -/

def requireUInt64 (a : ArrayRef F) (msg : String) : Res (List (Slot UInt64)) :=
  match a.uint64? with
  | some xs => .ok xs
  | none => execution msg

def bucket (width : UInt64) (ts : UInt64) : UInt64 := ts / width * width

def timeBucket (widthNs : Int64) (ts : ArrayRef F) : Res (ArrayRef F) :=
  if widthNs ≤ 0 then execution "time_bucket width must be > 0"
  else do
    let arr ← requireUInt64 ts "time_bucket: expected UInt64 timestamp"
    pure ⟨.uint64, arr.map fun x => .valid (bucket widthNs.toUInt64 x.value)⟩

section Temporal
variable [FloatOps F]

def rate (values : ArrayRef F) (windowNs : Int64) : Res (ArrayRef F) :=
  let windowS : F := FloatOps.div (FloatOps.ofInt windowNs.toInt) (FloatOps.ofInt 1000000000)
  match FloatOps.partialCmp windowS (FloatOps.ofInt 0) with
  | some .lt | some .eq => execution "rate: window must be > 0"
  | _ =>
    let r : F := FloatOps.div (FloatOps.ofInt values.len) windowS
    .ok ⟨.float64, List.replicate values.len (.valid r)⟩

/-- `to_f64_slice`: the buffer as floats, nulls included. -/
def toF64Slice : ArrayRef F → Res (List F)
  | ⟨.float64, xs⟩ => .ok (xs.map Slot.value)
  | ⟨.int64, xs⟩ => .ok (xs.map fun x => FloatOps.ofInt x.value.toInt)
  | ⟨.uint64, xs⟩ => .ok (xs.map fun x => FloatOps.ofInt x.value.toNat)
  | _ => execution "temporal function: unsupported numeric type"

def delta (values : ArrayRef F) : Res (ArrayRef F) := do
  match ← toF64Slice values with
  | [] => pure ⟨.float64, [.valid (FloatOps.ofInt 0)]⟩
  | first :: rest =>
    let d := FloatOps.sub ((first :: rest).getLastD first) first
    pure ⟨.float64, List.replicate values.len (.valid d)⟩

def floatLe (a b : F) : Bool :=
  match FloatOps.partialCmp a b with
  | some .lt | some .eq => true
  | _ => false

/-- `sort_by(partial_cmp.unwrap())`: a number that compares with nothing stops it. -/
def sortFloats (vals : List F) : Res (List F) :=
  if 1 < vals.length ∧ ∃ v ∈ vals, FloatOps.partialCmp v v = none then .error .panic
  else .ok (vals.insertionSort fun a b => floatLe a b = true)

def histogramQuantile (q : F) (values : ArrayRef F) : Res (ArrayRef F) :=
  if floatLe (FloatOps.ofInt 0) q && floatLe q (FloatOps.ofInt 1) then do
    match ← toF64Slice values with
    | [] => pure ⟨.float64, [.valid (FloatOps.ofInt 0)]⟩
    | v :: vs => do
      let sorted ← sortFloats (v :: vs)
      let idx := min (FloatOps.round (FloatOps.mul q
        (FloatOps.sub (FloatOps.ofInt sorted.length) (FloatOps.ofInt 1)))) (sorted.length - 1)
      pure ⟨.float64, List.replicate values.len (.valid (sorted.getD idx v))⟩
  else execution "histogram_quantile: q must be in [0, 1]"

/-! ### Functions of scalars -/

/-- `a.value(0)`, out of bounds on an empty array. -/
def firstValue {α : Type} : List (Slot α) → Res α
  | [] => .error .panic
  | x :: _ => .ok x.value

def scalarI64 : ArrayRef F → Res Int64
  | ⟨.int64, xs⟩ => firstValue xs
  | ⟨.uint64, xs⟩ => (firstValue xs).map UInt64.toInt64
  | _ => execution "expected integer scalar"

def scalarF64 : ArrayRef F → Res F
  | ⟨.float64, xs⟩ => firstValue xs
  | ⟨.int64, xs⟩ => (firstValue xs).map fun n => FloatOps.ofInt n.toInt
  | _ => execution "expected float scalar"

def evalFunction (clock : Int64) (nrows : Nat) (name : String) (args : List (Res (ArrayRef F))) :
    Res (ArrayRef F) :=
  match name with
  | "now" => .ok ⟨.int64, List.replicate nrows (.valid clock)⟩
  | "time_bucket" =>
    match args with
    | width :: ts :: _ => do
      let widthNs ← scalarI64 (← width)
      timeBucket widthNs (← ts)
    | _ => execution "time_bucket(width, ts)"
  | "rate" =>
    match args with
    | value :: window :: _ => do
      let vals ← value
      let windowNs ← scalarI64 (← window)
      rate vals windowNs
    | _ => execution "rate(value, window)"
  | "delta" =>
    match args with
    | value :: window :: _ => do
      let vals ← value
      let _ ← scalarI64 (← window)
      delta vals
    | _ => execution "delta(value, window)"
  | "histogram_quantile" =>
    match args with
    | quantile :: col :: rest => do
      let q ← scalarF64 (← quantile)
      let vals ← col
      match rest with
      | [] => histogramQuantile q vals
      | buckets :: _ => do
        let _ ← scalarI64 (← buckets)
        histogramQuantile q vals
    | _ => execution "histogram_quantile(q, col[, buckets])"
  | other => execution ("unknown function '" ++ other ++ "'")

/-! ### Expressions -/

def evalNot (arr : ArrayRef F) : Res (ArrayRef F) := do
  let b ← requireBoolean arr "NOT requires boolean"
  pure (booleans (computeNot b))

def evalIsNull (arr : ArrayRef F) : ArrayRef F := booleans (arr.slots.map fun x => .valid x.isNull)

def evalIsNotNull (arr : ArrayRef F) : ArrayRef F :=
  booleans (arr.slots.map fun x => .valid (!x.isNull))

def evalBetween (expr low high : Res (ArrayRef F)) : Res (ArrayRef F) := do
  let val ← expr
  let lo ← low
  let hi ← high
  let ge ← compareArrays val lo .gtEq
  let le ← compareArrays val hi .ltEq
  (computeAnd ge le).map booleans

def inMask (val : ArrayRef F) (mask : List (Slot Bool)) :
    List (Res (ArrayRef F)) → Res (List (Slot Bool))
  | [] => .ok mask
  | item :: items => do
    let eq ← compareArrays val (← item) .eq
    let mask ← computeOr mask eq
    inMask val mask items

def evalIn (expr : Res (ArrayRef F)) (list : List (Res (ArrayRef F))) : Res (ArrayRef F) := do
  let val ← expr
  (inMask val (List.replicate val.len (.valid false)) list).map booleans

/-- LIKE reads the buffer and forgets the nulls. -/
def evalLike (arr : ArrayRef F) (pattern : String) (negated : Bool) : Res (ArrayRef F) :=
  match arr.utf8? with
  | some strs => .ok (booleans (strs.map fun x => .valid (likeMatch pattern negated x.value)))
  | none => execution "LIKE requires text column"

mutual

/-- `eval_expr`, with the clock `now()` reads fixed. -/
def evalExpr (clock : Int64) (b : RecordBatch F) : Expr F → Res (ArrayRef F)
  | .literal lit => .ok (evalLiteral lit b.numRows)
  | .column _ name =>
    match b.column? name with
    | some c => .ok c
    | none => execution ("column '" ++ name ++ "' not found")
  | .star => execution "cannot evaluate * as a value"
  | .binOp op l r => evalBinop op (evalExpr clock b l) (evalExpr clock b r)
  | .unaryOp .neg e => do negateNumeric (← evalExpr clock b e)
  | .unaryOp .not e => do evalNot (← evalExpr clock b e)
  | .isNull e => do pure (evalIsNull (← evalExpr clock b e))
  | .isNotNull e => do pure (evalIsNotNull (← evalExpr clock b e))
  | .between e low high =>
    evalBetween (evalExpr clock b e) (evalExpr clock b low) (evalExpr clock b high)
  | .inList e list => evalIn (evalExpr clock b e) (evalList clock b list)
  | .like e pattern negated => do evalLike (← evalExpr clock b e) pattern negated
  | .function name args => evalFunction clock b.numRows name (evalList clock b args)
  | .timeBucket w e => do Query.timeBucket w (← evalExpr clock b e)
  | .rate e w => do Query.rate (← evalExpr clock b e) w
  | .delta e _ => do Query.delta (← evalExpr clock b e)
  | .histogramQuantile q e _ => do Query.histogramQuantile q (← evalExpr clock b e)
  | .now => .ok (evalLiteral (.int clock) b.numRows)
  | .interval ns => .ok (evalLiteral (.int ns) b.numRows)

def evalList (clock : Int64) (b : RecordBatch F) : List (Expr F) → List (Res (ArrayRef F))
  | [] => []
  | e :: es => evalExpr clock b e :: evalList clock b es

end

def evalFilter (clock : Int64) (b : RecordBatch F) (e : Expr F) : Res (List (Slot Bool)) := do
  requireBoolean (← evalExpr clock b e) "filter expression must be boolean"

end Temporal

end InfraLens.Query
