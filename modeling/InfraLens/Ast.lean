import InfraLens.Arrow

/-! The syntax of IQL (ast.rs), and which expressions the parser builds. -/
namespace InfraLens.Query

inductive BinOp where
  | add | sub | mul | div | mod
  | eq | notEq | lt | ltEq | gt | gtEq
  | and | or
  deriving DecidableEq

inductive UnaryOp where
  | neg | not
  deriving DecidableEq

inductive Literal (F : Type) where
  | int (n : Int64)
  | float (f : F)
  | str (s : String)
  | bool (b : Bool)
  | null
  | intervalNs (n : Int64)
  deriving DecidableEq

inductive Expr (F : Type) where
  | column (table : Option String) (name : String)
  | literal (lit : Literal F)
  | star
  | binOp (op : BinOp) (left right : Expr F)
  | unaryOp (op : UnaryOp) (operand : Expr F)
  | isNull (e : Expr F)
  | isNotNull (e : Expr F)
  | between (expr low high : Expr F)
  | inList (expr : Expr F) (list : List (Expr F))
  | like (expr : Expr F) (pattern : String) (negated : Bool)
  | function (name : String) (args : List (Expr F))
  | timeBucket (widthNs : Int64) (tsExpr : Expr F)
  | rate (valueExpr : Expr F) (windowNs : Int64)
  | delta (valueExpr : Expr F) (windowNs : Int64)
  | histogramQuantile (q : F) (valueExpr : Expr F) (buckets : UInt32)
  | now
  | interval (ns : Int64)

structure TableRef where
  name : String
  aliasName : Option String

inductive JoinKind where
  | inner | left | right

structure JoinClause (F : Type) where
  kind : JoinKind
  table : TableRef
  condition : Expr F

inductive Projection (F : Type) where
  | star
  | expr (expr : Expr F) (aliasName : Option String)

structure OrderByItem (F : Type) where
  expr : Expr F
  asc : Bool

structure SelectStatement (F : Type) where
  projections : List (Projection F)
  table : TableRef
  joins : List (JoinClause F)
  filter : Option (Expr F)
  groupBy : List (Expr F)
  having : Option (Expr F)
  orderBy : List (OrderByItem F)
  limit : Option UInt64
  offset : Option UInt64

namespace Expr
variable {F : Type}

/-- Induction over expressions, with the hypothesis for every member of a list. -/
@[elab_as_elim]
theorem tree {P : Expr F → Prop}
    (column : ∀ table name, P (column table name)) (literal : ∀ lit, P (literal lit))
    (star : P star) (binOp : ∀ op l r, P l → P r → P (binOp op l r))
    (unaryOp : ∀ op e, P e → P (unaryOp op e)) (isNull : ∀ e, P e → P (isNull e))
    (isNotNull : ∀ e, P e → P (isNotNull e))
    (between : ∀ e low high, P e → P low → P high → P (between e low high))
    (inList : ∀ e list, P e → (∀ a ∈ list, P a) → P (inList e list))
    (like : ∀ e pattern negated, P e → P (like e pattern negated))
    (function : ∀ name args, (∀ a ∈ args, P a) → P (function name args))
    (timeBucket : ∀ w e, P e → P (timeBucket w e)) (rate : ∀ e w, P e → P (rate e w))
    (delta : ∀ e w, P e → P (delta e w))
    (histogramQuantile : ∀ q e buckets, P e → P (histogramQuantile q e buckets))
    (now : P now) (interval : ∀ ns, P (interval ns)) (e : Expr F) : P e :=
  @Expr.rec F P (fun list => ∀ a ∈ list, P a)
    column literal star binOp unaryOp isNull isNotNull between inList like function timeBucket
    rate delta histogramQuantile now interval (fun _ h => absurd h List.not_mem_nil)
    (fun _ _ ha hl a h => by
      cases List.mem_cons.mp h with
      | inl he => exact he ▸ ha
      | inr hm => exact hl a hm) e

mutual

/-- The expressions `parse_expr` builds: the temporal nodes are left to a later pass. -/
def FromParser : Expr F → Prop
  | .column _ _ => True
  | .literal lit => ∀ n, lit ≠ .intervalNs n
  | .star => True
  | .binOp _ l r => l.FromParser ∧ r.FromParser
  | .unaryOp _ e => e.FromParser
  | .isNull e => e.FromParser
  | .isNotNull e => e.FromParser
  | .between e low high => e.FromParser ∧ low.FromParser ∧ high.FromParser
  | .inList e list => e.FromParser ∧ AllFromParser list
  | .like e _ _ => e.FromParser
  | .function _ args => AllFromParser args
  | .interval _ => True
  | .timeBucket _ _ => False
  | .rate _ _ => False
  | .delta _ _ => False
  | .histogramQuantile _ _ _ => False
  | .now => False

def AllFromParser : List (Expr F) → Prop
  | [] => True
  | e :: es => e.FromParser ∧ AllFromParser es

end

theorem allFromParser_iff (es : List (Expr F)) :
    AllFromParser es ↔ ∀ e ∈ es, e.FromParser := by
  induction es with
  | nil => simp [AllFromParser]
  | cons e es ih => simp [AllFromParser, ih]

end Expr

end InfraLens.Query
