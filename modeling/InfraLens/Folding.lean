import InfraLens.Eval
import InfraLens.LibList
import InfraLens.Plan

/-! Constant folding (optimizer/rules.rs): what it does to the value of an expression, and which
constant expressions it reduces to a literal. The clock is the same at plan time and at run
time. -/
namespace InfraLens.Query
open Schema Arrow

variable {F : Type}

def Expr.isInt : Expr F → Bool
  | .literal (.int _) => true
  | _ => false

theorem Expr.isInt_iff (e : Expr F) : e.isInt = true ↔ ∃ n, e = .literal (.int n) := by
  constructor
  · intro h
    unfold Expr.isInt at h
    split at h
    · exact ⟨_, rfl⟩
    · cases h
  · rintro ⟨n, rfl⟩
    rfl

def foldsMod (clock : Int64) : Expr F → Bool
  | .binOp op l r =>
    foldsMod clock l || foldsMod clock r ||
      (op == .mod && (foldBinOp .mod (foldExpr clock l) (foldExpr clock r)).isInt)
  | _ => false

/-! ### Values -/

theorem checked_of_fits (n : Int) (v : Int64) (h : fits n = some v) : checked n = .ok v := by
  unfold fits at h
  cases hn : checked n with
  | error e =>
    rw [hn] at h
    cases h
  | ok w =>
    rw [hn] at h
    cases h
    rfl

section Kernels
variable [FloatOps F]

theorem arithmetic_of_foldInts (op : BinOp) (a b v : Int64) (hop : op ≠ .mod)
    (h : foldInts op a b = some v) :
    ∃ (int : Int64 → Int64 → Except ArrowError Int64) (float : F → F → F),
      op.arithmetic = some (int, float) ∧ int a b = .ok v := by
  cases op with
  | add => exact ⟨_, _, rfl, checked_of_fits _ v h⟩
  | sub => exact ⟨_, _, rfl, checked_of_fits _ v h⟩
  | mul => exact ⟨_, _, rfl, checked_of_fits _ v h⟩
  | div =>
    refine ⟨_, _, rfl, ?_⟩
    rw [foldInts] at h
    rw [divChecked]
    split at h
    · cases h
    next hb => rw [if_neg hb, checked_of_fits _ v h]
  | mod => exact absurd rfl hop
  | _ => cases h

theorem arithmetic_op (op : BinOp) (l r : ArrayRef F)
    (h : (op.arithmetic : Option (_ × (F → F → F))).isSome = true) :
    evalBinop op (.ok l) (.ok r) = arithmeticArrays l r op := by
  cases op with
  | add => rfl
  | sub => rfl
  | mul => rfl
  | div => rfl
  | _ => cases h

theorem arithmeticArrays_int (op : BinOp) (int : Int64 → Int64 → Except ArrowError Int64)
    (float : F → F → F) (h : op.arithmetic = some (int, float)) (xs ys : List (Slot Int64)) :
    arithmeticArrays (⟨.int64, xs⟩ : ArrayRef F) ⟨.int64, ys⟩ op =
      (tryBinary 0 int xs ys).map (⟨.int64, ·⟩) := by
  unfold arithmeticArrays
  rw [h]

end Kernels

theorem tryZip_replicate (zero : Int64) (f : Int64 → Int64 → Except ArrowError Int64)
    (a b v : Int64) (h : f a b = .ok v) (n : Nat) :
    tryZip zero f (List.replicate n (.valid a)) (List.replicate n (.valid b)) =
      .ok (List.replicate n (.valid v)) := by
  induction n with
  | zero => rfl
  | succ n ih =>
    rw [List.replicate_succ, List.replicate_succ, List.replicate_succ, tryZip, Slot.tryMap2, h, ih]
    rfl

section Preservation
variable [FloatOps F] (clock : Int64) (b : RecordBatch F)

theorem eval_folded (op : BinOp) (m n v : Int64) (hop : op ≠ .mod) (h : foldInts op m n = some v) :
    evalExpr clock b (.binOp op (.literal (.int m)) (.literal (.int n))) =
      evalExpr clock b (.literal (.int v)) := by
  obtain ⟨int, float, harith, hint⟩ := arithmetic_of_foldInts (F := F) op m n v hop h
  have hsome : (op.arithmetic : Option (_ × (F → F → F))).isSome = true := by rw [harith]; rfl
  have hlen : (List.replicate b.numRows (Slot.valid m)).length =
      (List.replicate b.numRows (Slot.valid n)).length := by
    rw [List.length_replicate, List.length_replicate]
  simp only [evalExpr, evalLiteral]
  rw [arithmetic_op op _ _ hsome, arithmeticArrays_int op int float harith, tryBinary, if_pos hlen,
    tryZip_replicate 0 int m n v hint]
  rfl

theorem eval_foldBinOp (op : BinOp) (l r : Expr F)
    (h : (op == .mod && (foldBinOp .mod l r).isInt) = false) :
    evalExpr clock b (foldBinOp op l r) = evalExpr clock b (.binOp op l r) := by
  unfold foldBinOp
  split
  next m n =>
    split
    next v hv =>
      refine (eval_folded clock b op m n v ?_ hv).symm
      rintro rfl
      rw [foldBinOp, hv] at h
      cases h
    · rfl
  · rfl

theorem eval_foldExpr (e : Expr F) (h : foldsMod clock e = false) :
    evalExpr clock b (foldExpr clock e) = evalExpr clock b e := by
  induction e using Expr.tree with
  | binOp op l r ihl ihr =>
    simp only [foldsMod, Bool.or_eq_false_iff] at h
    obtain ⟨⟨hl, hr⟩, hop⟩ := h
    rw [foldExpr, eval_foldBinOp clock b op _ _ hop, evalExpr, evalExpr, ihl hl, ihr hr]
  | function name args _ =>
    unfold foldExpr
    split
    next heq =>
      cases heq
      rfl
    next heq => cases heq
    · rfl
  | _ => rfl

theorem evalBinop_error (op : BinOp) (l r : Res (ArrayRef F))
    (h : (∃ s, l = .error s) ∨ ∃ s, r = .error s) : ∃ s, evalBinop op l r = .error s := by
  cases l with
  | error s => exact ⟨s, rfl⟩
  | ok a =>
    obtain ⟨s, hs⟩ | ⟨s, rfl⟩ := h
    · cases hs
    · exact ⟨s, rfl⟩

theorem evalBinop_mod (l r : Res (ArrayRef F)) : ∃ s, evalBinop .mod l r = .error s := by
  cases l with
  | error s => exact ⟨s, rfl⟩
  | ok a =>
    cases r with
    | error s => exact ⟨s, rfl⟩
    | ok c => exact ⟨_, rfl⟩

/-- A remainder that folding computes is an error at run time, and the operators above it pass
the error on. -/
theorem eval_foldsMod (e : Expr F) (h : foldsMod clock e = true) :
    ∃ s, evalExpr clock b e = .error s := by
  induction e using Expr.tree with
  | binOp op l r ihl ihr =>
    simp only [foldsMod, Bool.or_eq_true, Bool.and_eq_true, beq_iff_eq] at h
    rw [evalExpr]
    obtain (hl | hr) | ⟨rfl, _⟩ := h
    · exact evalBinop_error op _ _ (Or.inl (ihl hl))
    · exact evalBinop_error op _ _ (Or.inr (ihr hr))
    · exact evalBinop_mod _ _
  | _ => cases h

/-- Folding preserves evaluation, errors included, when it computes no remainder. When it computes
one, the expression fails, so the two agree only if the folded expression fails for some other
reason. -/
theorem fold_preserves (e : Expr F) :
    (foldsMod clock e = false → evalExpr clock b (foldExpr clock e) = evalExpr clock b e) ∧
    (foldsMod clock e = true →
      ((evalExpr clock b (foldExpr clock e)).toOption = (evalExpr clock b e).toOption ↔
        ∃ s, evalExpr clock b (foldExpr clock e) = .error s)) := by
  refine ⟨eval_foldExpr clock b e, fun hmod => ?_⟩
  obtain ⟨s, hs⟩ := eval_foldsMod clock b e hmod
  rw [hs]
  cases evalExpr clock b (foldExpr clock e) with
  | error s' => exact iff_of_true rfl ⟨s', rfl⟩
  | ok a => exact iff_of_false (fun h => by cases h) (fun ⟨s', h⟩ => by cases h)

end Preservation

def bareRow : RecordBatch Exact where
  schema := []
  numRows := 1
  columns := []
  typed := rfl
  sized := by simp
  nonNull := by simp

def remainderTest : Expr Exact :=
  .binOp .eq (.binOp .mod (.literal (.int 7)) (.literal (.int 2))) (.literal (.int 1))

/-- A remainder of literals is true after folding and an error without it. -/
theorem fold_computes_remainder :
    evalExpr 0 bareRow (foldExpr 0 remainderTest) = .ok (booleans [.valid true]) ∧
      evalExpr 0 bareRow remainderTest = execution "unsupported arithmetic types" :=
  ⟨rfl, rfl⟩

/-! ### Constant expressions -/

section Constants
variable (clock : Int64)

/-- The value of an expression of integers, intervals and `now()` under minus, plus and times,
where it and the values it is made of fit in `i64`. -/
def constValue : Expr F → Option Int64
  | .literal (.int n) => some n
  | .literal (.intervalNs n) => some n
  | .interval ns => some ns
  | .now => some clock
  | .function "now" [] => some clock
  | .unaryOp .neg e => do fits (-(← constValue e).toInt)
  | .binOp .add l r => do fits ((← constValue l).toInt + (← constValue r).toInt)
  | .binOp .sub l r => do fits ((← constValue l).toInt - (← constValue r).toInt)
  | .binOp .mul l r => do fits ((← constValue l).toInt * (← constValue r).toInt)
  | _ => none

/-- Integers and calls of `now()` under binary operators: no interval and no unary minus. -/
def Expr.isPlain : Expr F → Bool
  | .literal (.int _) => true
  | .function "now" [] => true
  | .binOp _ l r => l.isPlain && r.isPlain
  | _ => false

theorem constValue_binOp (op : BinOp) (l r : Expr F) (v : Int64)
    (h : constValue clock (.binOp op l r) = some v) :
    op ≠ .mod ∧ ∃ m n, constValue clock l = some m ∧ constValue clock r = some n ∧
      foldInts op m n = some v := by
  cases op with
  | add | sub | mul =>
    rw [constValue] at h
    obtain ⟨m, hm, h⟩ := Option.bind_eq_some_iff.mp h
    obtain ⟨n, hn, h⟩ := Option.bind_eq_some_iff.mp h
    exact ⟨by simp, m, n, hm, hn, h⟩
  | _ => cases h

theorem constValue_function (name : String) (args : List (Expr F)) (v : Int64)
    (h : constValue clock (.function name args) = some v) :
    name = "now" ∧ args = [] ∧ v = clock := by
  unfold constValue at h
  split at h
  next heq => cases heq
  next heq => cases heq
  next heq => cases heq
  next heq => cases heq
  next heq =>
    cases heq
    cases h
    exact ⟨rfl, rfl, rfl⟩
  next heq => cases heq
  next heq => cases heq
  next heq => cases heq
  next heq => cases heq
  · cases h

theorem foldExpr_of_isPlain (e : Expr F) (v : Int64) (hp : e.isPlain = true)
    (h : constValue clock e = some v) : foldExpr clock e = .literal (.int v) := by
  induction e using Expr.tree generalizing v with
  | literal lit =>
    cases lit with
    | int n =>
      cases h
      rfl
    | _ => cases hp
  | binOp op l r ihl ihr =>
    rw [Expr.isPlain, Bool.and_eq_true] at hp
    obtain ⟨_, m, n, hm, hn, hfold⟩ := constValue_binOp clock op l r v h
    rw [foldExpr, ihl m hp.1 hm, ihr n hp.2 hn, foldBinOp, hfold]
  | function name args _ =>
    obtain ⟨rfl, rfl, rfl⟩ := constValue_function clock name args v h
    rfl
  | _ => cases hp

theorem isPlain_of_foldExpr (e : Expr F) (h : (foldExpr clock e).isInt = true) :
    e.isPlain = true := by
  induction e using Expr.tree with
  | literal lit =>
    cases lit with
    | int n => rfl
    | _ => cases h
  | binOp op l r ihl ihr =>
    rw [foldExpr] at h
    unfold foldBinOp at h
    split at h
    next hl hr =>
      rw [Expr.isPlain, ihl (by rw [hl]; rfl), ihr (by rw [hr]; rfl)]
      rfl
    · cases h
  | function name args _ =>
    unfold foldExpr at h
    split at h
    next heq =>
      cases heq
      rfl
    next heq => cases heq
    · cases h
  | _ => cases h

theorem foldExpr_const_iff (e : Expr F) (v : Int64) (h : constValue clock e = some v) :
    foldExpr clock e = .literal (.int v) ↔ e.isPlain = true := by
  constructor
  · intro hfold
    exact isPlain_of_foldExpr clock e (by rw [hfold]; rfl)
  · intro hp
    exact foldExpr_of_isPlain clock e v hp h

end Constants

section ConstantValues
variable [FloatOps F] (clock : Int64) (b : RecordBatch F)

theorem negI64_of_fits (m v : Int64) (h : fits (-m.toInt) = some v) : negI64 m = .ok v := by
  have hchecked := checked_of_fits _ v h
  unfold checked at hchecked
  split at hchecked
  next hrange =>
    cases hchecked
    have hne : m ≠ Int64.minValue := by
      rintro rfl
      exact absurd hrange.2 (by decide)
    rw [negI64, if_neg hne, Int64.ofInt_neg, Int64.ofInt_toInt]
  · cases hchecked

omit clock b in
theorem negate_constant (m v : Int64) (h : fits (-m.toInt) = some v) (nrows : Nat) :
    negateNumeric (evalLiteral (.int m) nrows : ArrayRef F) =
      .ok (evalLiteral (.int v) nrows) := by
  have hslots : ((List.replicate nrows (Slot.valid m)).mapM fun x =>
      ((negI64 x.value).map Slot.valid : Res (Slot Int64))) =
        .ok ((List.replicate nrows (Slot.valid m)).map fun _ => .valid v) := by
    apply LibList.mapM_ok
    intro x hx
    rw [List.eq_of_mem_replicate hx, Slot.value, negI64_of_fits m v h]
    rfl
  rw [evalLiteral, negateNumeric, hslots, List.map_replicate]
  rfl

theorem eval_constValue (e : Expr F) (v : Int64) (h : constValue clock e = some v) :
    evalExpr clock b e = .ok (evalLiteral (.int v) b.numRows) := by
  induction e using Expr.tree generalizing v with
  | literal lit =>
    cases lit with
    | int n =>
      cases h
      rfl
    | intervalNs n =>
      cases h
      rfl
    | _ => cases h
  | binOp op l r ihl ihr =>
    obtain ⟨hop, m, n, hm, hn, hfold⟩ := constValue_binOp clock op l r v h
    rw [evalExpr, ihl m hm, ihr n hn]
    exact eval_folded clock b op m n v hop hfold
  | unaryOp op e ih =>
    cases op with
    | not => cases h
    | neg =>
      rw [constValue] at h
      obtain ⟨m, hm, hfits⟩ := Option.bind_eq_some_iff.mp h
      rw [evalExpr, ih m hm]
      exact negate_constant m v hfits b.numRows
  | function name args _ =>
    obtain ⟨rfl, rfl, rfl⟩ := constValue_function clock name args v h
    rfl
  | now =>
    cases h
    rfl
  | interval ns =>
    cases h
    rfl
  | _ => cases h

end ConstantValues

/-! ### Predicates -/

section Predicates
variable (clock : Int64)

/-- An operand that is a constant has become its value. -/
def OperandFolded (e e' : Expr F) : Prop :=
  ∀ v, constValue clock e = some v → e' = .literal (.int v)

def BinOp.isConnective (op : BinOp) : Bool := op == .and || op == .or

/-- Every constant operand of a comparison or of BETWEEN has become its value, at any depth under
AND, OR and NOT. -/
def Replaced : Expr F → Expr F → Prop
  | .binOp op l r, p =>
    if op.isConnective then ∃ l' r', p = .binOp op l' r' ∧ Replaced l l' ∧ Replaced r r'
    else if op.comparison.isSome then
      ∃ l' r', p = .binOp op l' r' ∧ OperandFolded clock l l' ∧ OperandFolded clock r r'
    else True
  | .unaryOp .not e, p => ∃ e', p = .unaryOp .not e' ∧ Replaced e e'
  | .between e low high, p =>
    ∃ e' low' high', p = .between e' low' high' ∧ OperandFolded clock e e' ∧
      OperandFolded clock low low' ∧ OperandFolded clock high high'
  | _, _ => True

/-- Every constant operand is an integer literal already. -/
def isFolded : Expr F → Bool
  | .binOp op l r =>
    if op.isConnective then isFolded l && isFolded r
    else if op.comparison.isSome then
      ((constValue clock l).isNone || l.isInt) && ((constValue clock r).isNone || r.isInt)
    else true
  | .unaryOp .not e => isFolded e
  | .between e low high =>
    ((constValue clock e).isNone || e.isInt) && ((constValue clock low).isNone || low.isInt) &&
      ((constValue clock high).isNone || high.isInt)
  | _ => true

/-- No constant operand of a comparison has an interval or a unary minus, and those under NOT and
of BETWEEN are integer literals. -/
def foldsCompletely : Expr F → Bool
  | .binOp op l r =>
    if op.isConnective then foldsCompletely l && foldsCompletely r
    else if op.comparison.isSome then
      ((constValue clock l).isNone || l.isPlain) && ((constValue clock r).isNone || r.isPlain)
    else true
  | e => isFolded clock e

theorem operandFolded_self (e : Expr F) :
    OperandFolded clock e e ↔ ((constValue clock e).isNone || e.isInt) = true := by
  rw [OperandFolded]
  cases h : constValue clock e with
  | none => simp
  | some v =>
    simp only [Option.some.injEq, forall_eq', Option.isNone_some, Bool.false_or, Expr.isInt_iff]
    constructor
    · intro he
      exact ⟨v, he⟩
    · rintro ⟨n, rfl⟩
      cases h
      rfl

theorem operandFolded_fold (e : Expr F) :
    OperandFolded clock e (foldExpr clock e) ↔
      ((constValue clock e).isNone || e.isPlain) = true := by
  rw [OperandFolded]
  cases h : constValue clock e with
  | none => simp
  | some v =>
    simp only [Option.some.injEq, forall_eq', Option.isNone_some, Bool.false_or]
    exact foldExpr_const_iff clock e v h

theorem replaced_self (p : Expr F) : Replaced clock p p ↔ isFolded clock p = true := by
  induction p using Expr.tree with
  | binOp op l r ihl ihr =>
    rw [Replaced, isFolded]
    split
    · simp [ihl, ihr]
    · split
      · simp [operandFolded_self]
      · simp
  | unaryOp op e ih =>
    cases op with
    | neg => simp [Replaced, isFolded]
    | not => simp [Replaced, isFolded, ih]
  | between e low high _ _ _ => simp [Replaced, isFolded, operandFolded_self, and_assoc]
  | _ => simp [Replaced, isFolded]

theorem foldBinOp_of_foldInts (op : BinOp) (l r : Expr F) (h : ∀ m n, foldInts op m n = none) :
    foldBinOp op l r = .binOp op l r := by
  unfold foldBinOp
  split
  · rw [h]
  · rfl

theorem foldInts_connective (op : BinOp) (h : op.isConnective = true) (m n : Int64) :
    foldInts op m n = none := by
  cases op with
  | and | or => rfl
  | _ => cases h

theorem foldInts_comparison (op : BinOp) (h : op.comparison.isSome = true) (m n : Int64) :
    foldInts op m n = none := by
  cases op with
  | eq | notEq | lt | ltEq | gt | gtEq => rfl
  | _ => cases h

theorem replaced_fold (p : Expr F) :
    Replaced clock p (foldExpr clock p) ↔ foldsCompletely clock p = true := by
  induction p using Expr.tree with
  | binOp op l r ihl ihr =>
    rw [Replaced, foldsCompletely, foldExpr]
    split
    next hop =>
      rw [foldBinOp_of_foldInts op _ _ (foldInts_connective op hop)]
      simp [ihl, ihr]
    next =>
      split
      next hop =>
        rw [foldBinOp_of_foldInts op _ _ (foldInts_comparison op hop)]
        simp [operandFolded_fold]
      · simp
  | function name args _ => simp [Replaced, foldsCompletely, isFolded]
  | _ => exact replaced_self clock _

end Predicates

/-! ### Plans -/

/-- The predicates of the filters and scans of a plan, from the top down. -/
def LogicalPlan.predicates : LogicalPlan F → List (Expr F)
  | .scan op => op.predicate.toList
  | .filter predicate input => predicate :: input.predicates
  | .project _ input => input.predicates
  | .aggregate _ _ input => input.predicates
  | .sort _ input => input.predicates
  | .limit _ _ input => input.predicates
  | .join _ left right _ => left.predicates ++ right.predicates

theorem predicates_foldConstants (clock : Int64) (plan : LogicalPlan F) :
    (foldConstants clock plan).predicates = plan.predicates.map (foldExpr clock) := by
  induction plan with
  | scan op =>
    rw [foldConstants, LogicalPlan.predicates, LogicalPlan.predicates]
    cases op.predicate <;> rfl
  | filter predicate input ih =>
    rw [foldConstants, LogicalPlan.predicates, LogicalPlan.predicates, ih, List.map_cons]
  | join kind left right condition ihl ihr =>
    rw [foldConstants, LogicalPlan.predicates, LogicalPlan.predicates, ihl, ihr, List.map_append]
  | project _ _ ih => exact ih
  | aggregate _ _ _ ih => exact ih
  | sort _ _ ih => exact ih
  | limit _ _ _ ih => exact ih

section Select
variable (sel : SelectStatement F) (plan : LogicalPlan F)

theorem predicates_planAggregate : (planAggregate sel plan).predicates = plan.predicates := by
  simp only [planAggregate]
  split <;> rfl

theorem predicates_planProject : (planProject sel plan).predicates = plan.predicates := by
  simp only [planProject]
  split <;> rfl

theorem predicates_planSort : (planSort sel plan).predicates = plan.predicates := by
  rw [planSort]
  split <;> rfl

theorem predicates_planLimit : (planLimit sel plan).predicates = plan.predicates := by
  rw [planLimit]
  split <;> rfl

theorem predicates_planFilter (predicate : Option (Expr F)) :
    (planFilter predicate plan).predicates = predicate.toList ++ plan.predicates := by
  cases predicate <;> rfl

theorem where_mem_predicates (p : Expr F) (h : sel.filter = some p) :
    p ∈ (planSelect sel).predicates := by
  rw [planSelect, predicates_planLimit, predicates_planSort, predicates_planProject,
    predicates_planFilter, predicates_planAggregate, predicates_planFilter, h]
  simp

end Select

/-- Constants are folded completely exactly where they have no interval and no unary minus, are
not under NOT and are not bounds of BETWEEN. -/
theorem fold_constants_iff (clock : Int64) (plan : LogicalPlan F) :
    (∀ (e : Expr F) (v : Int64), constValue clock e = some v →
      (foldExpr clock e = .literal (.int v) ↔ e.isPlain = true)) ∧
    (List.Forall₂ (Replaced clock) plan.predicates (foldConstants clock plan).predicates ↔
      ∀ p ∈ plan.predicates, foldsCompletely clock p = true) := by
  refine ⟨foldExpr_const_iff clock, ?_⟩
  rw [predicates_foldConstants, List.forall₂_map_right_iff, List.forall₂_same]
  exact forall₂_congr fun p _ => replaced_fold clock p

def anHourAgo : Expr Exact := .binOp .sub (.function "now" []) (.interval 3600000000000)

def oneAndTwo : Expr Exact := .binOp .add (.literal (.int 1)) (.literal (.int 2))

def timestampColumn : Expr Exact := .column none "timestamp_ns"

/-- The bound of the last hour is not folded, and pruning finds no time range in it; a sum is
folded in neither BETWEEN nor NOT. -/
theorem fold_misses_constants :
    let clock : Int64 := 1733059200000000000
    let lastHour : Expr Exact := .binOp .gtEq timestampColumn anHourAgo
    let range : Expr Exact := .between timestampColumn oneAndTwo oneAndTwo
    let negation : Expr Exact := .unaryOp .not (.binOp .lt timestampColumn oneAndTwo)
    (constValue clock anHourAgo = some 1733055600000000000 ∧
      foldExpr clock anHourAgo ≠ .literal (.int 1733055600000000000)) ∧
    ¬ Replaced clock lastHour (foldExpr clock lastHour) ∧
    extractTimeRange (foldExpr clock lastHour) = none ∧
    ¬ Replaced clock range (foldExpr clock range) ∧
    ¬ Replaced clock negation (foldExpr clock negation) := by
  refine ⟨⟨by decide +kernel, by simp [anHourAgo, foldExpr, foldBinOp]⟩, ?_, rfl, ?_, ?_⟩
  · rw [replaced_fold]
    decide +kernel
  · rw [replaced_fold]
    decide +kernel
  · rw [replaced_fold]
    decide +kernel

end InfraLens.Query
