import InfraLens.Eval
import InfraLens.LibKleene

/-! What SQL says of a predicate on one row: integers of every width are compared as
integers, and the connectives are Kleene's. How an operand gets its value is a parameter. -/
namespace InfraLens.Query
open Schema Arrow LibKleene

variable {F : Type}

/-- A value, whatever the width of its column. -/
inductive Datum (F : Type) where
  | int (n : Int)
  | float (f : F)
  | text (s : String)
  | bytes (bs : List UInt8)
  | bool (b : Bool)
  deriving DecidableEq

/-- The value of a cell; `none` is null. -/
def datum : Cell F → Option (Datum F)
  | ⟨.uint64, x⟩ => x.get?.map fun n => .int n.toNat
  | ⟨.int64, x⟩ => x.get?.map fun n => .int n.toInt
  | ⟨.int32, x⟩ => x.get?.map fun n => .int n.toInt
  | ⟨.int8, x⟩ => x.get?.map fun n => .int n.toInt
  | ⟨.float64, x⟩ => x.get?.map .float
  | ⟨.utf8, x⟩ => x.get?.map .text
  | ⟨.binary, x⟩ => x.get?.map .bytes
  | ⟨.boolean, x⟩ => x.get?.map .bool

section Predicates
variable [FloatOps F]

/-- The order of two values of one kind. -/
def Datum.cmp : Datum F → Datum F → Option Ordering
  | .int m, .int n => some (compareOfLessAndEq m n)
  | .float a, .float b => FloatOps.partialCmp a b
  | .text s, .text t => some (compareOfLessAndEq s t)
  | _, _ => none

def sqlCompare (op : BinOp) (a b : Option (Datum F)) : Truth := do
  let test ← op.comparison
  let ord ← (← a).cmp (← b)
  pure (test ord)

/-- The truth of a predicate whose operands have the values `val`. -/
def truth (val : Expr F → Option (Datum F)) : Expr F → Truth
  | .binOp .and l r => kand (truth val l) (truth val r)
  | .binOp .or l r => kor (truth val l) (truth val r)
  | .binOp op l r => sqlCompare op (val l) (val r)
  | .unaryOp .not e => knot (truth val e)
  | .isNull e => some (val e).isNone
  | .isNotNull e => some (val e).isSome
  | .between e low high =>
    kand (sqlCompare .gtEq (val e) (val low)) (sqlCompare .ltEq (val e) (val high))
  | .inList e list =>
    list.foldl (fun t item => kor t (sqlCompare .eq (val e) (val item))) (some false)
  | e =>
    match val e with
    | some (.bool b) => some b
    | _ => none

omit [FloatOps F] in
def nullOperand (val : Expr F → Option (Datum F)) : Expr F → Bool
  | .binOp .and l r => nullOperand val l || nullOperand val r
  | .binOp .or l r => nullOperand val l || nullOperand val r
  | .binOp _ l r => (val l).isNone || (val r).isNone
  | .unaryOp .not e => nullOperand val e
  | .between e low high =>
    ((val e).isNone || (val low).isNone) || ((val e).isNone || (val high).isNone)
  | .inList e list => list.any fun item => (val e).isNone || (val item).isNone
  | _ => false

end Predicates

end InfraLens.Query
