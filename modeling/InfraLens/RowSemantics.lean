import InfraLens.Eval

/-! What an expression means on one row, and its type against a schema. The batch evaluator
computes this meaning row by row, except where a function reads the first row of a batch. -/
namespace InfraLens.Query
open Schema Arrow

variable {F : Type}

/-! ### Meaning -/

section Meaning
variable [FloatOps F]

def rowLiteral : Literal F → Cell F
  | .int n => ⟨.int64, .valid n⟩
  | .float f => ⟨.float64, .valid f⟩
  | .str s => ⟨.utf8, .valid s⟩
  | .bool b => ⟨.boolean, .valid b⟩
  | .null => ⟨.boolean, .null false⟩
  | .intervalNs n => ⟨.int64, .valid n⟩

def rowCompare (l r : Cell F) (op : BinOp) : Res (Slot Bool) :=
  match op.comparison, comparator l.dataType with
  | some test, some cmp =>
    if h : r.dataType = l.dataType then
      .ok (Slot.map2 (fun a b => test (cmp a b)) l.slot (h ▸ r.slot))
    else unsupportedComparison l.dataType r.dataType
  | _, _ => unsupportedComparison l.dataType r.dataType

def rowArithmetic (l r : Cell F) (op : BinOp) : Res (Cell F) :=
  match (op.arithmetic : Option (_ × (F → F → F))), l, r with
  | some (int, _), ⟨.int64, x⟩, ⟨.int64, y⟩ => (Slot.tryMap2 0 int x y).map (⟨.int64, ·⟩)
  | some (_, float), ⟨.float64, x⟩, ⟨.float64, y⟩ => .ok ⟨.float64, Slot.map2 float x y⟩
  | _, _, _ => execution "unsupported arithmetic types"

def rowNegate : Cell F → Res (Cell F)
  | ⟨.int64, x⟩ => (negI64 x.value).map fun n => ⟨.int64, .valid n⟩
  | ⟨.float64, x⟩ => .ok ⟨.float64, .valid (FloatOps.neg x.value)⟩
  | _ => execution "unary minus on non-numeric type"

def rowBoolean (c : Cell F) (msg : String) : Res (Slot Bool) :=
  match c with
  | ⟨.boolean, x⟩ => .ok x
  | _ => execution msg

def booleanCell (x : Slot Bool) : Cell F := ⟨.boolean, x⟩

/-- `AND` or `OR` with the two messages for an operand that is not boolean. -/
def rowConnective (f : Bool → Bool → Bool) (msgL msgR : String) (l r : Cell F) : Res (Cell F) := do
  let lb ← rowBoolean l msgL
  let rb ← rowBoolean r msgR
  pure (booleanCell (Slot.map2 f lb rb))

def rowBinop (op : BinOp) (left right : Res (Cell F)) : Res (Cell F) := do
  let l ← left
  let r ← right
  match op with
  | .and => rowConnective (· && ·) "AND: left not boolean" "AND: right not boolean" l r
  | .or => rowConnective (· || ·) "OR: left not boolean" "OR: right not boolean" l r
  | .add | .sub | .mul | .div | .mod => rowArithmetic l r op
  | _ => (rowCompare l r op).map booleanCell

def rowNot (c : Cell F) : Res (Cell F) := do
  let x ← rowBoolean c "NOT requires boolean"
  pure (booleanCell (x.map (!·)))

def rowBetween (expr low high : Res (Cell F)) : Res (Cell F) := do
  let val ← expr
  let lo ← low
  let hi ← high
  let ge ← rowCompare val lo .gtEq
  let le ← rowCompare val hi .ltEq
  pure (booleanCell (Slot.map2 (· && ·) ge le))

def rowInMask (val : Cell F) (mask : Slot Bool) : List (Res (Cell F)) → Res (Slot Bool)
  | [] => .ok mask
  | item :: items => do
    let eq ← rowCompare val (← item) .eq
    rowInMask val (Slot.map2 (· || ·) mask eq) items

def rowIn (expr : Res (Cell F)) (list : List (Res (Cell F))) : Res (Cell F) := do
  let val ← expr
  (rowInMask val (.valid false) list).map booleanCell

def rowLike (c : Cell F) (pattern : String) (negated : Bool) : Res (Cell F) :=
  match c with
  | ⟨.utf8, x⟩ => .ok (booleanCell (.valid (likeMatch pattern negated x.value)))
  | _ => execution "LIKE requires text column"

/-- The scalar argument of a function must have one of these types; a function that gets
this far reads the first row of its batch and has no meaning on a row by itself. -/
def rowScalar (types : List DataType) (msg : String) (c : Cell F) : Res (Cell F) :=
  if c.dataType ∈ types then execution "the function reads the first row of a batch"
  else execution msg

def rowFunction (clock : Int64) (name : String) (args : List (Res (Cell F))) : Res (Cell F) :=
  match name with
  | "now" => .ok ⟨.int64, .valid clock⟩
  | "time_bucket" =>
    match args with
    | width :: _ :: _ => do rowScalar [.int64, .uint64] "expected integer scalar" (← width)
    | _ => execution "time_bucket(width, ts)"
  | "rate" =>
    match args with
    | value :: window :: _ => do
      let _ ← value
      rowScalar [.int64, .uint64] "expected integer scalar" (← window)
    | _ => execution "rate(value, window)"
  | "delta" =>
    match args with
    | value :: window :: _ => do
      let _ ← value
      rowScalar [.int64, .uint64] "expected integer scalar" (← window)
    | _ => execution "delta(value, window)"
  | "histogram_quantile" =>
    match args with
    | quantile :: _ :: _ => do rowScalar [.float64, .int64] "expected float scalar" (← quantile)
    | _ => execution "histogram_quantile(q, col[, buckets])"
  | other => execution ("unknown function '" ++ other ++ "'")

mutual

/-- The value of an expression on a row of the schema. -/
def rowExpr (clock : Int64) (schema : List Field) (row : List (Cell F)) : Expr F → Res (Cell F)
  | .literal lit => .ok (rowLiteral lit)
  | .column _ name =>
    match cell? schema row name with
    | some c => .ok c
    | none => execution ("column '" ++ name ++ "' not found")
  | .star => execution "cannot evaluate * as a value"
  | .binOp op l r => rowBinop op (rowExpr clock schema row l) (rowExpr clock schema row r)
  | .unaryOp .neg e => do rowNegate (← rowExpr clock schema row e)
  | .unaryOp .not e => do rowNot (← rowExpr clock schema row e)
  | .isNull e => do pure (booleanCell (.valid (← rowExpr clock schema row e).slot.isNull))
  | .isNotNull e => do pure (booleanCell (.valid (!(← rowExpr clock schema row e).slot.isNull)))
  | .between e low high => rowBetween (rowExpr clock schema row e)
      (rowExpr clock schema row low) (rowExpr clock schema row high)
  | .inList e list => rowIn (rowExpr clock schema row e) (rowList clock schema row list)
  | .like e pattern negated => do rowLike (← rowExpr clock schema row e) pattern negated
  | .function name args => rowFunction clock name (rowList clock schema row args)
  | .interval ns => .ok ⟨.int64, .valid ns⟩
  | _ => execution "the function reads the first row of a batch"

def rowList (clock : Int64) (schema : List Field) (row : List (Cell F)) :
    List (Expr F) → List (Res (Cell F))
  | [] => []
  | e :: es => rowExpr clock schema row e :: rowList clock schema row es

end

end Meaning

/-! ### Types -/

/-- What the schema alone says of an expression: its type, that evaluating it always fails,
or that evaluation reaches a call that reads the first row of the batch. -/
inductive Verdict where
  | typed (t : DataType)
  | fails
  | call
  deriving DecidableEq

def Verdict.bind (v : Verdict) (k : DataType → Verdict) : Verdict :=
  match v with
  | .typed t => k t
  | .fails => .fails
  | .call => .call

def literalType : Literal F → DataType
  | .int _ => .int64
  | .float _ => .float64
  | .str _ => .utf8
  | .bool _ => .boolean
  | .null => .boolean
  | .intervalNs _ => .int64

/-- The comparisons `compare_arrays` supports. -/
def compares (op : BinOp) (l r : DataType) : Bool :=
  op.comparison.isSome && decide (l ∈ [.uint64, .int64, .float64, .utf8]) && decide (r = l)

def checkArithmetic (op : BinOp) (l r : DataType) : Verdict :=
  if op = .mod then .fails
  else if l = .int64 ∧ r = .int64 then .typed .int64
  else if l = .float64 ∧ r = .float64 then .typed .float64
  else .fails

def checkBinop (op : BinOp) (l r : DataType) : Verdict :=
  match op with
  | .and | .or => if l = .boolean ∧ r = .boolean then .typed .boolean else .fails
  | .add | .sub | .mul | .div | .mod => checkArithmetic op l r
  | _ => if compares op l r then .typed .boolean else .fails

def checkNegate : DataType → Verdict
  | .int64 => .typed .int64
  | .float64 => .typed .float64
  | _ => .fails

/-- An operation on one type only, with a boolean result. -/
def checkOnly (t u : DataType) : Verdict := if u = t then .typed .boolean else .fails

def checkIn (t : DataType) : List Verdict → Verdict
  | [] => .typed .boolean
  | v :: vs => v.bind fun u => if compares .eq t u then checkIn t vs else .fails

def checkScalar (types : List DataType) (t : DataType) : Verdict :=
  if t ∈ types then .call else .fails

def checkFunction (name : String) (args : List Verdict) : Verdict :=
  match name with
  | "now" => .typed .int64
  | "time_bucket" =>
    match args with
    | width :: _ :: _ => width.bind (checkScalar [.int64, .uint64])
    | _ => .fails
  | "rate" =>
    match args with
    | value :: window :: _ => value.bind fun _ => window.bind (checkScalar [.int64, .uint64])
    | _ => .fails
  | "delta" =>
    match args with
    | value :: window :: _ => value.bind fun _ => window.bind (checkScalar [.int64, .uint64])
    | _ => .fails
  | "histogram_quantile" =>
    match args with
    | quantile :: _ :: _ => quantile.bind (checkScalar [.float64, .int64])
    | _ => .fails
  | _ => .fails

mutual

/-- The type of an expression, found in the order of evaluation. -/
def check (schema : List Field) : Expr F → Verdict
  | .literal lit => .typed (literalType lit)
  | .column _ name =>
    match (indexOf schema name).bind fun i => schema[i]? with
    | some f => .typed f.dataType
    | none => .fails
  | .star => .fails
  | .binOp op l r => (check schema l).bind fun t => (check schema r).bind (checkBinop op t)
  | .unaryOp .neg e => (check schema e).bind checkNegate
  | .unaryOp .not e => (check schema e).bind (checkOnly .boolean)
  | .isNull e => (check schema e).bind fun _ => .typed .boolean
  | .isNotNull e => (check schema e).bind fun _ => .typed .boolean
  | .between e low high =>
    (check schema e).bind fun t => (check schema low).bind fun l =>
      (check schema high).bind fun h =>
      if compares .gtEq t l && compares .ltEq t h then .typed .boolean else .fails
  | .inList e list => (check schema e).bind fun t => checkIn t (checkList schema list)
  | .like e _ _ => (check schema e).bind (checkOnly .utf8)
  | .function name args => checkFunction name (checkList schema args)
  | .interval _ => .typed .int64
  | _ => .call

def checkList (schema : List Field) : List (Expr F) → List Verdict
  | [] => []
  | e :: es => check schema e :: checkList schema es

end

/-! ### Agreement -/

/-- The result of evaluating on a batch agrees with the results on its rows: the rows'
values in order, or the failure of some row. Where the schema says the evaluation fails,
one error is returned whatever the rows are, even if there is none; where it reaches a call,
a batch without rows has no first row to read. -/
def Refines (v : Verdict) (cells : List (Res (Cell F))) (r : Res (ArrayRef F)) : Prop :=
  match v with
  | .typed t => (∃ slots, r = .ok ⟨t, slots⟩ ∧ cells = slots.map fun s => .ok ⟨t, s⟩) ∨
      ∃ s, r = .error s ∧ .error s ∈ cells
  | .fails => (∃ q, r = .error (.error q) ∧ ∀ c ∈ cells, c = .error (.error q)) ∨
      ∃ s, r = .error s ∧ .error s ∈ cells
  | .call => cells = [] → r = .error .panic

theorem refines_error (v : Verdict) (cells : List (Res (Cell F))) (s : Stop)
    (h : .error s ∈ cells) : Refines v cells (.error s) := by
  cases v with
  | typed t => exact Or.inr ⟨s, rfl, h⟩
  | fails => exact Or.inr ⟨s, rfl, h⟩
  | call => exact fun hnil => absurd h (hnil ▸ List.not_mem_nil)

theorem refines_fails {ρ : Type} (rows : List ρ) (f : ρ → Res (Cell F)) (q : QueryError)
    (h : ∀ row, f row = .error (.error q)) :
    Refines .fails (rows.map f) (.error (.error q) : Res (ArrayRef F)) := by
  refine Or.inl ⟨q, rfl, ?_⟩
  intro c hc
  obtain ⟨row, _, rfl⟩ := List.mem_map.mp hc
  exact h row

section Bind
variable {ρ : Type} (rows : List ρ)

/-- Sequencing: what is done with the value on the batch is done with it on every row. -/
theorem refines_bind (f : ρ → Res (Cell F)) (k : ρ → Cell F → Res (Cell F)) (v : Verdict)
    (r : Res (ArrayRef F)) (K : ArrayRef F → Res (ArrayRef F)) (w : DataType → Verdict)
    (h : Refines v (rows.map f) r)
    (hk : ∀ t slots, v = .typed t → (rows.map f = slots.map fun s => .ok ⟨t, s⟩) →
      Refines (w t) (rows.map fun row => f row >>= k row) (K ⟨t, slots⟩)) :
    Refines (v.bind w) (rows.map fun row => f row >>= k row) (r >>= K) := by
  have herr : ∀ s, .error s ∈ rows.map f → .error s ∈ rows.map fun row => f row >>= k row := by
    intro s hs
    obtain ⟨row, hrow, hf⟩ := List.mem_map.mp hs
    exact List.mem_map.mpr ⟨row, hrow, by rw [hf]; rfl⟩
  cases v with
  | typed t =>
    obtain ⟨slots, rfl, hcells⟩ | ⟨s, rfl, hs⟩ := h
    · exact hk t slots rfl hcells
    · exact refines_error _ _ s (herr s hs)
  | fails =>
    obtain ⟨q, rfl, hall⟩ | ⟨s, rfl, hs⟩ := h
    · refine Or.inl ⟨q, rfl, ?_⟩
      intro c hc
      obtain ⟨row, hrow, rfl⟩ := List.mem_map.mp hc
      rw [hall (f row) (List.mem_map_of_mem hrow)]
      rfl
    · exact refines_error _ _ s (herr s hs)
  | call =>
    intro hnil
    have hrows : rows = [] := List.map_eq_nil_iff.mp hnil
    rw [h (by rw [hrows]; rfl)]
    rfl

theorem cells_zip {α β γ δ : Type} (f : ρ → α) (g : ρ → β) (xs : List γ) (ys : List δ)
    (mkx : γ → α) (mky : δ → β) (hf : rows.map f = xs.map mkx) (hg : rows.map g = ys.map mky)
    {ε : Type} (G : α → β → ε) :
    (rows.map fun row => G (f row) (g row)) = List.zipWith (fun x y => G (mkx x) (mky y)) xs ys ∧
      xs.length = ys.length := by
  refine ⟨?_, ?_⟩
  · rw [← List.zipWith_map, ← hf, ← hg, List.zipWith_map, List.zipWith_self]
  · have hx := congrArg List.length hf
    have hy := congrArg List.length hg
    simp only [List.length_map] at hx hy
    exact hx.symm.trans hy

end Bind

end InfraLens.Query
