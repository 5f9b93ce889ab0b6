import InfraLens.LibList
import InfraLens.RowRefinement

/-! Nulls through the operators that rebuild their result row by row: unary minus, LIKE,
NOT LIKE and time_bucket. Each reads the buffer of its operand and makes every row valid. -/
namespace InfraLens.Query
open Schema Arrow

variable {F : Type} [FloatOps F]

inductive ScalarOp where
  | neg
  | like (pattern : String) (negated : Bool)
  | timeBucket (widthNs : Int64)

def ScalarOp.expr (op : ScalarOp) (e : Expr F) : Expr F :=
  match op with
  | .neg => .unaryOp .neg e
  | .like pattern negated => .like e pattern negated
  | .timeBucket widthNs => .timeBucket widthNs e

def ScalarOp.run (op : ScalarOp) (arr : ArrayRef F) : Res (ArrayRef F) :=
  match op with
  | .neg => negateNumeric arr
  | .like pattern negated => evalLike arr pattern negated
  | .timeBucket widthNs => Query.timeBucket widthNs arr

theorem evalExpr_scalar (clock : Int64) (b : RecordBatch F) (op : ScalarOp) (e : Expr F)
    (arr : ArrayRef F) (h : evalExpr clock b e = .ok arr) :
    evalExpr clock b (op.expr e) = op.run arr := by
  cases op <;> simp only [ScalarOp.expr, evalExpr, h] <;> rfl

/-- An operator on the values of one type. -/
structure Kernel (F : Type) (t : DataType) where
  out : DataType
  apply : Value F t → Res (Value F out)

/-- The types an operator works on, and what it does to a value of each. -/
def ScalarOp.kernel : ScalarOp → (t : DataType) → Option (Kernel F t)
  | .neg, .int64 => some ⟨.int64, negI64⟩
  | .neg, .float64 => some ⟨.float64, fun (x : F) => .ok (FloatOps.neg x)⟩
  | .like pattern negated, .utf8 => some ⟨.boolean, fun s => .ok (likeMatch pattern negated s)⟩
  | .timeBucket widthNs, .uint64 =>
    if widthNs ≤ 0 then none else some ⟨.uint64, fun ts => .ok (bucket widthNs.toUInt64 ts)⟩
  | _, _ => none

theorem mapM_valid {α β : Type} (g : α → β) (xs : List (Slot α)) :
    (xs.mapM fun x => (Except.ok (g x.value) : Res β).map Slot.valid) =
      .ok (xs.map fun x => Slot.valid (g x.value)) :=
  LibList.mapM_ok _ _ xs fun _ _ => rfl

theorem run_kernel (op : ScalarOp) (t : DataType) (k : Kernel F t) (hk : op.kernel t = some k)
    (xs : List (Slot (Value F t))) :
    op.run ⟨t, xs⟩ =
      (xs.mapM fun x => (k.apply x.value).map Slot.valid).map fun ys => ⟨k.out, ys⟩ := by
  cases op with
  | neg =>
    cases t with
    | int64 =>
      cases hk
      rfl
    | float64 =>
      cases hk
      have h := mapM_valid (fun x : F => FloatOps.neg x) xs
      exact (congrArg (Except.map _) h).symm
    | uint64 | int32 | int8 | utf8 | binary | boolean => cases hk
  | like pattern negated =>
    cases t with
    | utf8 =>
      cases hk
      have h := mapM_valid (likeMatch pattern negated) xs
      exact (congrArg (Except.map _) h).symm
    | uint64 | int64 | int32 | int8 | float64 | binary | boolean => cases hk
  | timeBucket widthNs =>
    cases t with
    | uint64 =>
      by_cases hw : widthNs ≤ 0
      · simp [ScalarOp.kernel, hw] at hk
      · simp only [ScalarOp.kernel, hw, if_false, Option.some.injEq] at hk
        subst hk
        have h := mapM_valid (bucket widthNs.toUInt64) xs
        simp only [ScalarOp.run, Query.timeBucket, hw, if_false]
        exact (congrArg (Except.map _) h).symm
    | int64 | int32 | int8 | float64 | utf8 | binary | boolean => cases hk

theorem valid_of_mapM {α β : Type} (f : α → Res β) (xs : List (Slot α)) (ys : List (Slot β))
    (h : (xs.mapM fun x => (f x.value).map Slot.valid) = .ok ys) :
    List.Forall₂ (fun x y => ∃ w, f x.value = .ok w ∧ y = Slot.valid w) xs ys := by
  have hcells : xs.map (fun x => (f x.value).map Slot.valid) = ys.map .ok := by
    obtain ⟨ys', hok, hcells⟩ | ⟨s, herr, -⟩ :=
      mapM_cases (fun x : Slot α => (f x.value).map Slot.valid) xs
    · rw [h] at hok
      cases hok
      exact hcells
    · rw [h] at herr
      cases herr
  rw [← List.forall₂_eq_eq_eq, List.forall₂_map_left_iff, List.forall₂_map_right_iff] at hcells
  refine hcells.imp ?_
  intro x y hxy
  cases hx : f x.value with
  | error e =>
    rw [hx] at hxy
    cases hxy
  | ok w =>
    rw [hx] at hxy
    cases hxy
    exact ⟨w, rfl, rfl⟩

/-- Null exactly where the operand is, and elsewhere the operator applied to its value. -/
def Propagated {t : DataType} (k : Kernel F t) (xs : List (Slot (Value F t)))
    (ys : List (Slot (Value F k.out))) : Prop :=
  List.Forall₂ (fun x y => y.isNull = x.isNull ∧
    ∀ v, x = Slot.valid v → ∃ w, k.apply v = .ok w ∧ y = Slot.valid w) xs ys

/-- The operator has a result on each value of the operand. Only the least `i64` has no
negative. -/
def Kernel.Defined {t : DataType} (k : Kernel F t) (xs : List (Slot (Value F t))) : Prop :=
  ∀ v, Slot.valid v ∈ xs → ∃ w, k.apply v = .ok w

theorem run_no_kernel (op : ScalarOp) (t : DataType) (xs : List (Slot (Value F t)))
    (hk : (op.kernel t : Option (Kernel F t)) = none) : ∃ s, op.run ⟨t, xs⟩ = .error s := by
  cases op with
  | neg =>
    cases t with
    | int64 | float64 => cases hk
    | uint64 | int32 | int8 | utf8 | binary | boolean => exact ⟨_, rfl⟩
  | like pattern negated =>
    cases t with
    | utf8 => cases hk
    | uint64 | int64 | int32 | int8 | float64 | binary | boolean => exact ⟨_, rfl⟩
  | timeBucket widthNs =>
    by_cases hw : widthNs ≤ 0
    · exact ⟨_, by simp only [ScalarOp.run, Query.timeBucket, hw, if_true]; rfl⟩
    · simp only [ScalarOp.run, Query.timeBucket, hw, if_false]
      cases t with
      | uint64 => simp [ScalarOp.kernel, hw] at hk
      | int64 | int32 | int8 | float64 | utf8 | binary | boolean => exact ⟨_, rfl⟩

theorem scalar_fails (clock : Int64) (b : RecordBatch F) (op : ScalarOp) (e : Expr F)
    (t : DataType) (xs : List (Slot (Value F t))) (he : evalExpr clock b e = .ok ⟨t, xs⟩)
    (hdef : ∀ k, op.kernel t = some k → ¬ k.Defined xs) :
    ∃ s, evalExpr clock b (op.expr e) = .error s := by
  rw [evalExpr_scalar clock b op e ⟨t, xs⟩ he]
  cases hk : (op.kernel t : Option (Kernel F t)) with
  | none => exact run_no_kernel op t xs hk
  | some k =>
    rw [run_kernel op t k hk xs]
    obtain ⟨ys, -, hcells⟩ | ⟨s, hrun, -⟩ :=
      mapM_cases (fun x : Slot (Value F t) => (k.apply x.value).map Slot.valid) xs
    · exfalso
      apply hdef k hk
      intro v hv
      have hmem : (k.apply v).map Slot.valid ∈ ys.map Except.ok := by
        rw [← hcells]
        exact List.mem_map_of_mem (f := fun x : Slot (Value F t) =>
          (k.apply x.value).map Slot.valid) hv
      obtain ⟨y, -, hy⟩ := List.mem_map.mp hmem
      cases hw : k.apply v with
      | error s =>
        rw [hw] at hy
        cases hy
      | ok w => exact ⟨w, rfl⟩
    · exact ⟨s, by rw [hrun]; rfl⟩

omit [FloatOps F] in
theorem noNulls_of_propagated {t : DataType} (k : Kernel F t) (xs : List (Slot (Value F t)))
    (ys : List (Slot (Value F k.out)))
    (hrun : (xs.mapM fun x => (k.apply x.value).map Slot.valid) = .ok ys)
    (h : Propagated k xs ys) : ∀ x ∈ xs, x.isNull = false := by
  have hvalid := valid_of_mapM k.apply xs ys hrun
  clear hrun
  induction h with
  | nil => simp
  | cons hxy htail ih =>
    cases hvalid with
    | cons hv hvs =>
      obtain ⟨w, -, hy⟩ := hv
      intro x hx
      cases List.mem_cons.mp hx with
      | inl he => rw [he, ← hxy.1, hy]; rfl
      | inr hm => exact ih hvs x hm

omit [FloatOps F] in
theorem propagated_of_noNulls {t : DataType} (k : Kernel F t) (xs : List (Slot (Value F t)))
    (hdef : k.Defined xs) (hn : ∀ x ∈ xs, x.isNull = false) :
    ∃ ys, (xs.mapM fun x => (k.apply x.value).map Slot.valid) = .ok ys ∧ Propagated k xs ys := by
  induction xs with
  | nil => exact ⟨[], rfl, .nil⟩
  | cons x xs ih =>
    have hdef' : k.Defined xs := fun v hv => hdef v (List.mem_cons_of_mem x hv)
    obtain ⟨ys, hrun, hys⟩ := ih hdef' fun y hy => hn y (List.mem_cons_of_mem x hy)
    cases x with
    | null raw => exact absurd (hn (.null raw) List.mem_cons_self) (by simp [Slot.isNull])
    | valid v =>
      obtain ⟨w, hw⟩ := hdef v List.mem_cons_self
      refine ⟨.valid w :: ys, ?_, .cons ⟨rfl, ?_⟩ hys⟩
      · rw [List.mapM_cons, hrun]
        simp only [Slot.value, hw]
        rfl
      · intro v' hv'
        cases hv'
        exact ⟨w, hw, rfl⟩

/-- Where the operator is defined on the operand's values, its result has nulls at exactly the
rows of the operand's nulls only if there are none. -/
theorem nulls_propagate_iff (clock : Int64) (b : RecordBatch F) (op : ScalarOp) (e : Expr F)
    (t : DataType) (xs : List (Slot (Value F t))) (k : Kernel F t)
    (he : evalExpr clock b e = .ok ⟨t, xs⟩) (hk : op.kernel t = some k) (hdef : k.Defined xs) :
    (∃ ys, evalExpr clock b (op.expr e) = .ok ⟨k.out, ys⟩ ∧ Propagated k xs ys) ↔
      ∀ x ∈ xs, x.isNull = false := by
  rw [evalExpr_scalar clock b op e ⟨t, xs⟩ he, run_kernel op t k hk xs]
  constructor
  · intro h
    obtain ⟨ys, hys, hprop⟩ := h
    cases hrun : xs.mapM fun x => (k.apply x.value).map Slot.valid with
    | error s =>
      rw [hrun] at hys
      cases hys
    | ok zs =>
      rw [hrun] at hys
      cases hys
      exact noNulls_of_propagated k xs ys hrun hprop
  · intro hn
    obtain ⟨ys, hrun, hprop⟩ := propagated_of_noNulls k xs hdef hn
    exact ⟨ys, by rw [hrun]; rfl, hprop⟩

/-- A row of nulls and a row of values, each in a column the operators work on. -/
def halfNull : RecordBatch Exact where
  schema := [⟨"n", .int64, true⟩, ⟨"s", .utf8, true⟩, ⟨"at", .uint64, true⟩]
  numRows := 2
  columns := [⟨.int64, [.null 0, .valid 5]⟩, ⟨.utf8, [.null "", .valid "ab"]⟩,
    ⟨.uint64, [.null 0, .valid 27]⟩]
  typed := rfl
  sized := by simp [ArrayRef.len]
  nonNull := by simp

/-- A column without nulls keeps having none. -/
theorem nulls_propagate_literal :
    ∃ ys, evalExpr 0 halfNull (ScalarOp.neg.expr (.literal (.int 5))) = .ok ⟨.int64, ys⟩ ∧
      Propagated (⟨.int64, negI64⟩ : Kernel Exact .int64) [.valid 5, .valid 5] ys := by
  apply (nulls_propagate_iff 0 halfNull .neg (.literal (.int 5)) .int64 [.valid 5, .valid 5]
    ⟨.int64, negI64⟩ rfl rfl ?_).mpr
  · simp [Slot.isNull]
  · intro v hv
    have h5 : v = 5 := by simpa using hv
    exact ⟨-5, by rw [h5]; decide⟩

/-- The null row comes out of all four operators as a value: a negated zero, a text that matches
or not, the first bucket. -/
theorem nulls_become_values :
    evalExpr 0 halfNull (ScalarOp.neg.expr (.column none "n")) =
      .ok ⟨.int64, [.valid 0, .valid (-5)]⟩ ∧
    evalExpr 0 halfNull ((ScalarOp.like "a%" false).expr (.column none "s")) =
      .ok ⟨.boolean, [.valid false, .valid true]⟩ ∧
    evalExpr 0 halfNull ((ScalarOp.like "a%" true).expr (.column none "s")) =
      .ok ⟨.boolean, [.valid true, .valid false]⟩ ∧
    evalExpr 0 halfNull ((ScalarOp.timeBucket 10).expr (.column none "at")) =
      .ok ⟨.uint64, [.valid 0, .valid 20]⟩ := by
  exact ⟨rfl, rfl, rfl, rfl⟩

end InfraLens.Query
