import InfraLens.RowRefinement
import InfraLens.Sql

/-! The mask of a WHERE clause against the truth of its predicate in SQL, and the
comparisons of integer columns with integer literals. -/
namespace InfraLens.Query
open Schema Arrow LibKleene LibExcept

variable {F : Type}

/-! ### Comparisons -/

theorem get?_map2 (f : Bool → Bool → Bool) (x y : Slot Bool) :
    (Slot.map2 f x y).get? = strict f x.get? y.get? := by
  cases x <;> cases y <;> rfl

theorem isTrue_iff (x : Slot Bool) : x.isTrue = true ↔ x.get? = some true := by
  cases x <;> simp [Slot.isTrue, Slot.get?]

theorem compare_map {α β : Type} [LT α] [DecidableLT α] [DecidableEq α] [LT β] [DecidableLT β]
    [DecidableEq β] (f : α → β) (a b : α) (hlt : f a < f b ↔ a < b) (heq : f a = f b ↔ a = b) :
    compareOfLessAndEq (f a) (f b) = compareOfLessAndEq a b := by
  simp only [compareOfLessAndEq, hlt, heq]

theorem compare_uint64 (a b : UInt64) :
    compareOfLessAndEq (a.toNat : Int) b.toNat = compareOfLessAndEq a b :=
  compare_map (fun n : UInt64 => (n.toNat : Int)) a b
    (by rw [Int.ofNat_lt, UInt64.lt_iff_toNat_lt]) (by rw [Int.ofNat_inj, UInt64.toNat_inj])

theorem compare_int64 (a b : Int64) :
    compareOfLessAndEq a.toInt b.toInt = compareOfLessAndEq a b :=
  compare_map Int64.toInt a b Int64.lt_iff_toInt_lt.symm Int64.toInt_inj

section Eval
variable [FloatOps F]

/-- The types whose comparisons SQL and the evaluator have in common. -/
def plainTypes : List DataType := [.uint64, .int64, .utf8]

theorem rowCompare_agrees_of (op : BinOp) (hop : op.comparison.isSome) (t : DataType)
    (cmp : Value F t → Value F t → Ordering) (hcmp : comparator t = some cmp)
    (value : Value F t → Datum F) (hvalue : ∀ x, datum ⟨t, x⟩ = x.get?.map value)
    (horder : ∀ a b, (value a).cmp (value b) = some (cmp a b)) (x y : Slot (Value F t)) :
    ∃ s, rowCompare (⟨t, x⟩ : Cell F) ⟨t, y⟩ op = .ok s ∧
      Agrees ((datum ⟨t, x⟩).isNone || (datum ⟨t, y⟩).isNone) s.get?
        (sqlCompare op (datum ⟨t, x⟩) (datum ⟨t, y⟩)) := by
  obtain ⟨test, htest⟩ := Option.isSome_iff_exists.mp hop
  refine ⟨Slot.map2 (fun a b => test (cmp a b)) x y, ?_, ?_⟩
  · simp only [rowCompare, htest, hcmp]
    rfl
  · rw [hvalue, hvalue]
    cases x with
    | null a => cases y <;> rfl
    | valid a =>
      cases y with
      | null b => rfl
      | valid b =>
        refine ⟨test (cmp a b), rfl, ?_⟩
        simp [sqlCompare, htest, Slot.get?, horder]

theorem rowCompare_agrees (op : BinOp) (hop : op.comparison.isSome) (t : DataType)
    (ht : t ∈ plainTypes) (x y : Slot (Value F t)) :
    ∃ s, rowCompare (⟨t, x⟩ : Cell F) ⟨t, y⟩ op = .ok s ∧
      Agrees ((datum ⟨t, x⟩).isNone || (datum ⟨t, y⟩).isNone) s.get?
        (sqlCompare op (datum ⟨t, x⟩) (datum ⟨t, y⟩)) := by
  simp only [plainTypes, List.mem_cons, List.not_mem_nil, or_false] at ht
  obtain rfl | rfl | rfl := ht
  · exact rowCompare_agrees_of op hop .uint64 _ rfl (fun n : UInt64 => .int n.toNat)
      (fun _ => rfl) (fun a b => congrArg some (compare_uint64 a b)) x y
  · exact rowCompare_agrees_of op hop .int64 _ rfl (fun n : Int64 => .int n.toInt)
      (fun _ => rfl) (fun a b => congrArg some (compare_int64 a b)) x y
  · exact rowCompare_agrees_of op hop .utf8 _ rfl .text (fun _ => rfl) (fun _ _ => rfl) x y

/-- The array of an operand: one slot for each row. -/
def HasType (clock : Int64) (b : RecordBatch F) (e : Expr F) (t : DataType) : Prop :=
  ∃ slots, evalExpr clock b e = .ok ⟨t, slots⟩ ∧ slots.length = b.numRows

def valueAt (clock : Int64) (b : RecordBatch F) (i : Nat) (e : Expr F) : Option (Datum F) :=
  match evalExpr clock b e with
  | .ok a => a.cells[i]?.bind datum
  | .error _ => none

theorem valueAt_of (clock : Int64) (b : RecordBatch F) (e : Expr F) (t : DataType)
    (slots : List (Slot (Value F t))) (h : evalExpr clock b e = .ok ⟨t, slots⟩) (i : Nat)
    (hi : i < slots.length) : valueAt clock b i e = datum ⟨t, slots.get ⟨i, hi⟩⟩ := by
  simp only [valueAt, h, ArrayRef.cells, List.getElem?_map, List.getElem?_eq_getElem hi]
  rfl

theorem compare_operands (clock : Int64) (b : RecordBatch F) (op : BinOp)
    (hop : op.comparison.isSome) (l r : Expr F) (t : DataType) (ht : t ∈ plainTypes)
    (xs ys : List (Slot (Value F t))) (hl : evalExpr clock b l = .ok ⟨t, xs⟩)
    (hr : evalExpr clock b r = .ok ⟨t, ys⟩) (hlen : xs.length = ys.length) :
    ∃ mask, compareArrays (⟨t, xs⟩ : ArrayRef F) ⟨t, ys⟩ op = .ok mask ∧
      mask.length = xs.length ∧ ∀ i (hi : i < mask.length),
        Agrees ((valueAt clock b i l).isNone || (valueAt clock b i r).isNone)
          (mask.get ⟨i, hi⟩).get? (sqlCompare op (valueAt clock b i l) (valueAt clock b i r)) := by
  have hcompares : compares op t t = true := by
    simp only [plainTypes, List.mem_cons, List.not_mem_nil, or_false] at ht
    obtain rfl | rfl | rfl := ht <;> simp [compares, hop]
  obtain ⟨g, harrays, hrow⟩ := compare_ok (F := F) op t t hcompares
  refine ⟨_, harrays xs ys hlen, by rw [List.length_zipWith]; omega, ?_⟩
  intro i hi
  rw [List.length_zipWith] at hi
  have hx : i < xs.length := by omega
  have hy : i < ys.length := by omega
  obtain ⟨s, hs, hagree⟩ := rowCompare_agrees (F := F) op hop t ht (xs.get ⟨i, hx⟩) (ys.get ⟨i, hy⟩)
  rw [hrow] at hs
  cases hs
  rw [valueAt_of clock b l t xs hl i hx, valueAt_of clock b r t ys hr i hy]
  simpa [List.getElem_zipWith] using hagree

/-! ### Predicates -/

/-- Comparisons, `BETWEEN` and `IN` between operands of one type, null tests, and the
connectives. -/
def IsPredicate (clock : Int64) (b : RecordBatch F) : Expr F → Prop
  | .binOp .and l r => IsPredicate clock b l ∧ IsPredicate clock b r
  | .binOp .or l r => IsPredicate clock b l ∧ IsPredicate clock b r
  | .binOp op l r => op.comparison.isSome ∧
      ∃ t ∈ plainTypes, HasType clock b l t ∧ HasType clock b r t
  | .unaryOp .not e => IsPredicate clock b e
  | .isNull e => ∃ t, HasType clock b e t
  | .isNotNull e => ∃ t, HasType clock b e t
  | .between e low high =>
    ∃ t ∈ plainTypes, HasType clock b e t ∧ HasType clock b low t ∧ HasType clock b high t
  | .inList e list =>
    ∃ t ∈ plainTypes, HasType clock b e t ∧ ∀ item ∈ list, HasType clock b item t
  | _ => False

omit [FloatOps F] in
/-- A mask of `n` rows that agrees with a predicate in each, up to null operands. -/
def MaskOf (n : Nat) (null : Nat → Bool) (value : Nat → Truth) (mask : List (Slot Bool)) : Prop :=
  mask.length = n ∧ ∀ i (hi : i < mask.length),
    Agrees (null i) (mask.get ⟨i, hi⟩).get? (value i)

omit [FloatOps F] in
theorem mask_binary (rows : Nat) (f : Bool → Bool → Bool)
    (g : Truth → Truth → Truth) (hg : ∀ v w, g (some v) (some w) = some (f v w))
    (m n : Nat → Bool) (k l : Nat → Truth) (xs ys : List (Slot Bool))
    (hx : MaskOf rows m k xs) (hy : MaskOf rows n l ys) :
    ∃ mask, binary f xs ys = .ok mask ∧
      MaskOf rows (fun i => m i || n i) (fun i => g (k i) (l i)) mask := by
  have hlen : xs.length = ys.length := hx.1.trans hy.1.symm
  refine ⟨_, if_pos hlen, by rw [List.length_zipWith, hx.1, hy.1, Nat.min_self], ?_⟩
  intro i hi
  rw [List.length_zipWith] at hi
  have hagree := agrees_strict hg (hx.2 i (by omega)) (hy.2 i (by omega))
  rw [← get?_map2] at hagree
  simpa [List.getElem_zipWith] using hagree

omit [FloatOps F] in
theorem mask_not (rows : Nat) (n : Nat → Bool) (k : Nat → Truth) (xs : List (Slot Bool))
    (hx : MaskOf rows n k xs) : MaskOf rows n (fun i => knot (k i)) (computeNot xs) := by
  refine ⟨by rw [computeNot, List.length_map, hx.1], ?_⟩
  intro i hi
  have hagree := (hx.2 i (by simpa [computeNot] using hi)).not
  have hget : ∀ x : Slot Bool, (x.map (!·)).get? = knot x.get? := by
    intro x
    cases x <;> rfl
  rw [← hget] at hagree
  simpa [computeNot] using hagree

/-- A null test reads the operand's slots and is never null. -/
theorem mask_null (clock : Int64) (b : RecordBatch F) (e : Expr F) (g : Bool → Bool)
    (t : DataType) (xs : List (Slot (Value F t))) (he : evalExpr clock b e = .ok ⟨t, xs⟩)
    (hlen : xs.length = b.numRows) :
    MaskOf b.numRows (fun _ => false) (fun i => some (g (valueAt clock b i e).isNone))
      (xs.map fun x => .valid (g x.isNull)) := by
  refine ⟨by rw [List.length_map, hlen], ?_⟩
  intro i hi
  have hx : i < xs.length := by simpa using hi
  have hnull : ∀ x : Slot (Value F t), (datum (⟨t, x⟩ : Cell F)).isNone = x.isNull := by
    intro x
    cases t <;> cases x <;> rfl
  simp only [valueAt_of clock b e t xs he i hx, hnull]
  exact ⟨g (xs.get ⟨i, hx⟩).isNull, by simp [Slot.get?], rfl⟩

theorem mask_in (clock : Int64) (b : RecordBatch F) (e : Expr F) (t : DataType)
    (ht : t ∈ plainTypes) (xs : List (Slot (Value F t))) (he : evalExpr clock b e = .ok ⟨t, xs⟩)
    (hlen : xs.length = b.numRows) (list : List (Expr F))
    (hlist : ∀ item ∈ list, HasType clock b item t) (mask : List (Slot Bool)) (n : Nat → Bool)
    (k : Nat → Truth) (hmask : MaskOf b.numRows n k mask) :
    ∃ out, inMask ⟨t, xs⟩ mask (list.map (evalExpr clock b)) = .ok out ∧
      MaskOf b.numRows (fun i => n i || list.any fun item =>
          (valueAt clock b i e).isNone || (valueAt clock b i item).isNone)
        (fun i => list.foldl (fun v item => kor v
          (sqlCompare .eq (valueAt clock b i e) (valueAt clock b i item))) (k i)) out := by
  induction list generalizing mask n k with
  | nil => exact ⟨mask, rfl, by simpa using hmask⟩
  | cons item list ih =>
    obtain ⟨ys, hitem, hys⟩ := hlist item List.mem_cons_self
    obtain ⟨eq, heq, heqLen, hagree⟩ := compare_operands clock b .eq rfl e item t ht xs ys he hitem
      (hlen.trans hys.symm)
    obtain ⟨next, hnext, hmaskNext⟩ := mask_binary b.numRows (· || ·) kor kor_some _ _ _ _ mask eq
      hmask ⟨heqLen.trans hlen, hagree⟩
    obtain ⟨out, hout, hmaskOut⟩ := ih (fun a ha => hlist a (List.mem_cons_of_mem item ha)) next
      _ _ hmaskNext
    refine ⟨out, ?_, ?_⟩
    · simp only [List.map_cons, inMask, hitem, ok_bind, heq, computeOr, hnext, hout]
    · simpa [Bool.or_assoc] using hmaskOut

/-- The expression evaluates to a mask: SQL's truth in every row without a null operand, and
null elsewhere. -/
def HasMask (clock : Int64) (b : RecordBatch F) (e : Expr F) : Prop :=
  ∃ mask, evalExpr clock b e = .ok (booleans mask) ∧
    MaskOf b.numRows (fun i => nullOperand (valueAt clock b i) e)
      (fun i => truth (valueAt clock b i) e) mask

theorem hasMask_binary (clock : Int64) (b : RecordBatch F) (op : BinOp) (l r : Expr F)
    (f : Bool → Bool → Bool) (g : Truth → Truth → Truth)
    (hg : ∀ v w, g (some v) (some w) = some (f v w))
    (heval : ∀ xs ys, evalExpr clock b l = .ok (booleans xs) →
      evalExpr clock b r = .ok (booleans ys) →
        evalExpr clock b (.binOp op l r) = (binary f xs ys).map booleans)
    (hnull : ∀ i, nullOperand (valueAt clock b i) (.binOp op l r) =
      (nullOperand (valueAt clock b i) l || nullOperand (valueAt clock b i) r))
    (htruth : ∀ i, truth (valueAt clock b i) (.binOp op l r) =
      g (truth (valueAt clock b i) l) (truth (valueAt clock b i) r))
    (hl : HasMask clock b l) (hr : HasMask clock b r) : HasMask clock b (.binOp op l r) := by
  obtain ⟨xs, hxs, hx⟩ := hl
  obtain ⟨ys, hys, hy⟩ := hr
  obtain ⟨mask, hmask, hof⟩ := mask_binary b.numRows f g hg _ _ _ _ xs ys hx hy
  refine ⟨mask, ?_, ?_⟩
  · rw [heval xs ys hxs hys, hmask]
    rfl
  · simp only [hnull, htruth]
    exact hof

theorem hasMask_and (clock : Int64) (b : RecordBatch F) (l r : Expr F)
    (hl : HasMask clock b l) (hr : HasMask clock b r) : HasMask clock b (.binOp .and l r) := by
  refine hasMask_binary clock b .and l r (· && ·) kand kand_some ?_ (fun _ => rfl) (fun _ => rfl)
    hl hr
  intro xs ys hxs hys
  simp only [evalExpr, evalBinop, hxs, hys, ok_bind]
  rfl

theorem hasMask_or (clock : Int64) (b : RecordBatch F) (l r : Expr F)
    (hl : HasMask clock b l) (hr : HasMask clock b r) : HasMask clock b (.binOp .or l r) := by
  refine hasMask_binary clock b .or l r (· || ·) kor kor_some ?_ (fun _ => rfl) (fun _ => rfl)
    hl hr
  intro xs ys hxs hys
  simp only [evalExpr, evalBinop, hxs, hys, ok_bind]
  rfl

theorem hasMask_compare (clock : Int64) (b : RecordBatch F) (op : BinOp)
    (hop : op.comparison.isSome) (l r : Expr F) (t : DataType) (ht : t ∈ plainTypes)
    (hl : HasType clock b l t) (hr : HasType clock b r t) :
    HasMask clock b (.binOp op l r) := by
  obtain ⟨xs, hxs, hx⟩ := hl
  obtain ⟨ys, hys, hy⟩ := hr
  obtain ⟨mask, hmask, hlen, hof⟩ :=
    compare_operands clock b op hop l r t ht xs ys hxs hys (hx.trans hy.symm)
  have heval : evalExpr clock b (.binOp op l r) = .ok (booleans mask) := by
    simp only [evalExpr, evalBinop, hxs, hys, ok_bind]
    cases op <;> first | exact absurd hop (by decide) | (rw [hmask]; rfl)
  refine ⟨mask, heval, hlen.trans hx, ?_⟩
  cases op <;> first | exact absurd hop (by decide) | exact hof

theorem hasMask_between (clock : Int64) (b : RecordBatch F) (e low high : Expr F) (t : DataType)
    (ht : t ∈ plainTypes) (he : HasType clock b e t) (hlow : HasType clock b low t)
    (hhigh : HasType clock b high t) : HasMask clock b (.between e low high) := by
  obtain ⟨xs, hxs, hx⟩ := he
  obtain ⟨ys, hys, hy⟩ := hlow
  obtain ⟨zs, hzs, hz⟩ := hhigh
  obtain ⟨ge, hge, hgeLen, hgeOf⟩ :=
    compare_operands clock b .gtEq rfl e low t ht xs ys hxs hys (hx.trans hy.symm)
  obtain ⟨le, hle, hleLen, hleOf⟩ :=
    compare_operands clock b .ltEq rfl e high t ht xs zs hxs hzs (hx.trans hz.symm)
  obtain ⟨mask, hmask, hof⟩ := mask_binary b.numRows (· && ·) kand kand_some _ _ _ _ ge le
    ⟨hgeLen.trans hx, hgeOf⟩ ⟨hleLen.trans hx, hleOf⟩
  refine ⟨mask, ?_, hof⟩
  simp only [evalExpr, evalBetween, hxs, hys, hzs, ok_bind, hge, hle, computeAnd, hmask]
  rfl

theorem hasMask_in (clock : Int64) (b : RecordBatch F) (e : Expr F) (list : List (Expr F))
    (t : DataType) (ht : t ∈ plainTypes) (he : HasType clock b e t)
    (hlist : ∀ item ∈ list, HasType clock b item t) : HasMask clock b (.inList e list) := by
  obtain ⟨xs, hxs, hx⟩ := he
  have hstart : MaskOf b.numRows (fun _ => false) (fun _ => some false)
      (List.replicate xs.length (.valid false)) := by
    refine ⟨by rw [List.length_replicate, hx], fun i hi => ⟨false, ?_, rfl⟩⟩
    simp [Slot.get?]
  obtain ⟨mask, hmask, hof⟩ :=
    mask_in clock b e t ht xs hxs hx list hlist _ _ _ hstart
  refine ⟨mask, ?_, hof⟩
  simp only [evalExpr, evalIn, hxs, ok_bind, evalList_eq]
  change (inMask ⟨t, xs⟩ (List.replicate xs.length (.valid false)) _).map booleans = _
  rw [hmask]
  rfl

theorem eval_predicate (clock : Int64) (b : RecordBatch F) (e : Expr F)
    (h : IsPredicate clock b e) : HasMask clock b e := by
  induction e using Expr.tree with
  | binOp op l r hl hr =>
    cases op with
    | and => exact hasMask_and clock b l r (hl h.1) (hr h.2)
    | or => exact hasMask_or clock b l r (hl h.1) (hr h.2)
    | _ =>
      obtain ⟨hop, t, ht, hlt, hrt⟩ := h
      exact hasMask_compare clock b _ hop l r t ht hlt hrt
  | unaryOp op e ih =>
    cases op with
    | neg => exact h.elim
    | not =>
      obtain ⟨xs, hxs, hx⟩ := ih h
      refine ⟨computeNot xs, ?_, mask_not b.numRows _ _ xs hx⟩
      simp only [evalExpr, hxs, ok_bind]
      rfl
  | isNull e ih =>
    obtain ⟨t, xs, hxs, hx⟩ := h
    refine ⟨_, ?_, mask_null clock b e (fun null => null) t xs hxs hx⟩
    simp only [evalExpr, hxs, ok_bind]
    rfl
  | isNotNull e ih =>
    obtain ⟨t, xs, hxs, hx⟩ := h
    have hof := mask_null clock b e (fun null => !null) t xs hxs hx
    refine ⟨xs.map fun x => .valid (!x.isNull), ?_, ?_⟩
    · simp only [evalExpr, hxs, ok_bind]
      rfl
    · simp only [Option.not_isNone] at hof
      exact hof
  | between e low high _ _ _ =>
    obtain ⟨t, ht, he, hlow, hhigh⟩ := h
    exact hasMask_between clock b e low high t ht he hlow hhigh
  | inList e list _ _ =>
    obtain ⟨t, ht, he, hlist⟩ := h
    exact hasMask_in clock b e list t ht he hlist
  | _ => exact h.elim

/-! ### The rows a WHERE clause keeps -/

/-- Filtering by the predicate keeps a row exactly when it is true of it in SQL. -/
def KeepsTrueRows (clock : Int64) (b : RecordBatch F) (e : Expr F) : Prop :=
  ∃ mask out, evalFilter clock b e = .ok mask ∧ filterRecordBatch b mask = .ok out ∧
    out.rows = keep mask b.rows ∧ mask.length = b.numRows ∧
    ∀ i (hi : i < mask.length), (mask.get ⟨i, hi⟩).isTrue = true ↔
      truth (valueAt clock b i) e = some true

/-- `eval_filter` succeeds on a predicate, and its mask filters the batch. -/
theorem evalFilter_predicate (clock : Int64) (b : RecordBatch F) (e : Expr F)
    (h : IsPredicate clock b e) :
    ∃ mask out, evalFilter clock b e = .ok mask ∧ filterRecordBatch b mask = .ok out ∧
      out.rows = keep mask b.rows ∧ mask.length = b.numRows ∧
      ∀ i (hi : i < mask.length), (mask.get ⟨i, hi⟩).isTrue = true ↔
        truth (valueAt clock b i) e = some true ∧ nullOperand (valueAt clock b i) e = false := by
  obtain ⟨mask, heval, hlen, hof⟩ := eval_predicate clock b e h
  have hfits : ∀ c ∈ b.columns, mask.length ≤ c.len := fun c hc => by rw [hlen, b.sized c hc]
  have hfilter : ∃ out, filterRecordBatch b mask = .ok out := ⟨_, dif_pos hfits⟩
  obtain ⟨out, hout⟩ := hfilter
  refine ⟨mask, out, ?_, hout, rows_filter b out mask hlen.le hout, hlen, ?_⟩
  · rw [evalFilter, heval]
    rfl
  · intro i hi
    rw [isTrue_iff]
    exact (hof i hi).eq_true_iff

theorem hasType_int (clock : Int64) (b : RecordBatch F) (v : Int64) :
    HasType clock b (.literal (.int v)) .int64 :=
  ⟨List.replicate b.numRows (.valid v), rfl, List.length_replicate⟩

omit [FloatOps F] in
theorem column_of_field (b : RecordBatch F) (f : Field)
    (h : ((indexOf b.schema f.name).bind fun i => b.schema[i]?) = some f) :
    ∃ slots : List (Slot (Value F f.dataType)), b.column? f.name = some ⟨f.dataType, slots⟩ ∧
      slots.length = b.numRows := by
  obtain ⟨i, hi, hf⟩ := Option.bind_eq_some_iff.mp h
  have htypes : (b.columns[i]?).map ArrayRef.dataType = some f.dataType := by
    rw [← List.getElem?_map, b.typed, List.getElem?_map, hf]
    rfl
  obtain ⟨⟨t, slots⟩, hc, ht⟩ := Option.map_eq_some_iff.mp htypes
  change t = f.dataType at ht
  subst ht
  exact ⟨slots, by rw [RecordBatch.column?, hi]; exact hc, b.sized _ (List.mem_of_getElem? hc)⟩

theorem map_get?_mask (n : Nat) (null : Nat → Bool) (value : Nat → Truth)
    (mask : List (Slot Bool)) (h : MaskOf n null value mask)
    (hnull : ∀ i < n, null i = true → value i = none) :
    mask.map Slot.get? = (List.range n).map value := by
  apply List.ext_getElem
  · rw [List.length_map, List.length_map, List.length_range, h.1]
  · intro i hi _
    have hmask : i < mask.length := by simpa using hi
    have hagree := h.2 i hmask
    rw [List.getElem_map, List.getElem_map, List.getElem_range]
    cases hn : null i with
    | true =>
      rw [hn] at hagree
      rw [hnull i (h.1 ▸ hmask) hn]
      exact hagree
    | false =>
      rw [hn] at hagree
      obtain ⟨v, hs, hk⟩ := hagree
      rw [hk]
      exact hs

theorem sqlCompare_null (op : BinOp) (a b : Option (Datum F)) (h : (a.isNone || b.isNone) = true) :
    sqlCompare op a b = none := by
  unfold sqlCompare
  cases a <;> cases b <;> cases op.comparison <;> first | rfl | cases h

theorem map_valueAt (clock : Int64) (b : RecordBatch F) (e : Expr F) (a : ArrayRef F)
    (h : evalExpr clock b e = .ok a) (hlen : a.len = b.numRows) {γ : Type}
    (g : Option (Datum F) → γ) :
    ((List.range b.numRows).map fun i => g (valueAt clock b i e)) =
      a.cells.map fun c => g (datum c) := by
  apply List.ext_getElem
  · simp [hlen]
  · intro i hi _
    have hcell : i < a.cells.length := by simpa [hlen] using hi
    rw [List.getElem_map, List.getElem_map, List.getElem_range]
    simp only [valueAt, h, List.getElem?_eq_getElem hcell, Option.bind_some]

/-- `c op v` evaluates to the comparison of integers in every row, null where `c` is. -/
def ComparesIntegers (clock : Int64) (b : RecordBatch F) (table : Option String) (f : Field)
    (op : BinOp) (v : Int64) : Prop :=
  ∃ c mask, b.column? f.name = some c ∧
    evalExpr clock b (.binOp op (.column table f.name) (.literal (.int v))) =
      .ok (booleans mask) ∧
    mask.map Slot.get? = c.cells.map fun x => sqlCompare op (datum x) (some (.int v.toInt))

/-- `c BETWEEN low AND high` evaluates to both comparisons. -/
def BetweenIntegers (clock : Int64) (b : RecordBatch F) (table : Option String) (f : Field)
    (low high : Int64) : Prop :=
  ∃ c mask, b.column? f.name = some c ∧
    evalExpr clock b (.between (.column table f.name) (.literal (.int low))
      (.literal (.int high))) = .ok (booleans mask) ∧
    mask.map Slot.get? = c.cells.map fun x => kand
      (sqlCompare .gtEq (datum x) (some (.int low.toInt)))
      (sqlCompare .ltEq (datum x) (some (.int high.toInt)))

theorem valueAt_int (clock : Int64) (b : RecordBatch F) (v : Int64) (i : Nat)
    (hi : i < b.numRows) : valueAt clock b i (.literal (.int v)) = some (.int v.toInt) := by
  rw [valueAt_of clock b _ .int64 (List.replicate b.numRows (.valid v)) rfl i (by simpa using hi)]
  simp [datum, Slot.get?]

/-- A column of the schema that is not `Int64` cannot be compared with an integer literal. -/
theorem compare_int_fails (clock : Int64) (b : RecordBatch F) (table : Option String) (f : Field)
    (slots : List (Slot (Value F f.dataType)))
    (hc : b.column? f.name = some ⟨f.dataType, slots⟩) (ht : f.dataType ≠ .int64) (op : BinOp)
    (v : Int64) :
    evalExpr clock b (.column table f.name) = .ok ⟨f.dataType, slots⟩ ∧
      compareArrays ⟨f.dataType, slots⟩ (evalLiteral (.int v) b.numRows) op =
        unsupportedComparison f.dataType .int64 := by
  have hno : compares op f.dataType .int64 = false := by
    simp [compares, Ne.symm ht]
  exact ⟨by simp only [evalExpr, hc], (compare_fails (F := F) op f.dataType .int64 hno).1 slots _⟩

theorem comparesIntegers_int64 (clock : Int64) (b : RecordBatch F) (table : Option String)
    (f : Field) (slots : List (Slot Int64)) (hc : b.column? f.name = some ⟨.int64, slots⟩)
    (hlen : slots.length = b.numRows) (op : BinOp) (hop : op.comparison.isSome) (v : Int64) :
    ComparesIntegers clock b table f op v := by
  have heval : evalExpr clock b (.column table f.name) = .ok ⟨.int64, slots⟩ := by
    simp only [evalExpr, hc]
  obtain ⟨mask, hmask, hmaskLen, hof⟩ := compare_operands clock b op hop (.column table f.name)
    (.literal (.int v)) .int64 (by decide) slots _ heval rfl (by simp [hlen])
  refine ⟨_, mask, hc, ?_, ?_⟩
  · have hlit : evalExpr clock b (.literal (.int v)) =
        .ok ⟨.int64, List.replicate b.numRows (.valid v)⟩ := rfl
    rw [evalExpr, evalBinop, heval, hlit, ok_bind, ok_bind]
    cases op <;> first | exact absurd hop (by decide) | (rw [hmask]; rfl)
  · rw [map_get?_mask b.numRows _ _ mask ⟨hmaskLen.trans hlen, hof⟩
      fun i _ => sqlCompare_null op _ _]
    rw [← map_valueAt clock b (.column table f.name) ⟨.int64, slots⟩ heval hlen
      fun x => sqlCompare op x (some (.int v.toInt))]
    apply List.map_congr_left
    intro i hi
    rw [valueAt_int clock b v i (List.mem_range.mp hi)]

theorem betweenIntegers_int64 (clock : Int64) (b : RecordBatch F) (table : Option String)
    (f : Field) (slots : List (Slot Int64)) (hc : b.column? f.name = some ⟨.int64, slots⟩)
    (hlen : slots.length = b.numRows) (low high : Int64) :
    BetweenIntegers clock b table f low high := by
  have heval : evalExpr clock b (.column table f.name) = .ok ⟨.int64, slots⟩ := by
    simp only [evalExpr, hc]
  obtain ⟨mask, hmask, hof⟩ := hasMask_between clock b (.column table f.name)
    (.literal (.int low)) (.literal (.int high)) .int64 (by decide) ⟨slots, heval, hlen⟩
    (hasType_int clock b low) (hasType_int clock b high)
  refine ⟨_, mask, hc, hmask, ?_⟩
  rw [map_get?_mask b.numRows _ _ mask hof]
  · rw [← map_valueAt clock b (.column table f.name) ⟨.int64, slots⟩ heval hlen
      fun x => kand (sqlCompare .gtEq x (some (.int low.toInt)))
        (sqlCompare .ltEq x (some (.int high.toInt)))]
    apply List.map_congr_left
    intro i hi
    rw [truth, valueAt_int clock b low i (List.mem_range.mp hi),
      valueAt_int clock b high i (List.mem_range.mp hi)]
  · intro i hi hnull
    rw [nullOperand, valueAt_int clock b low i hi, valueAt_int clock b high i hi] at hnull
    have hnone : (valueAt clock b i (.column table f.name)).isNone = true := by
      simpa using hnull
    rw [truth, sqlCompare_null .gtEq _ _ (by rw [hnone]; rfl),
      sqlCompare_null .ltEq _ _ (by rw [hnone]; rfl)]
    rfl

/-- In the three schemas a column can be compared with integer literals exactly when it is of
type `Int64`. -/
theorem int_comparison_iff (clock : Int64) (sig : Model.SignalType) (b : RecordBatch F)
    (hb : b.schema = schema sig) (f : Field) (hf : f ∈ schema sig) (table : Option String)
    (op : BinOp) (hop : op.comparison.isSome) (v low high : Int64) :
    (ComparesIntegers clock b table f op v ↔ f.dataType = .int64) ∧
      (BetweenIntegers clock b table f low high ↔ f.dataType = .int64) := by
  have hfield : ((indexOf b.schema f.name).bind fun i => b.schema[i]?) = some f := by
    rw [hb]
    revert f
    cases sig <;> decide
  obtain ⟨slots, hc, hlen⟩ := column_of_field b f hfield
  by_cases ht : f.dataType = .int64
  · obtain ⟨name, t, nullable⟩ := f
    change t = .int64 at ht
    subst ht
    exact ⟨⟨fun _ => rfl, fun _ => comparesIntegers_int64 clock b table _ slots hc hlen op hop v⟩,
      ⟨fun _ => rfl, fun _ => betweenIntegers_int64 clock b table _ slots hc hlen low high⟩⟩
  · obtain ⟨heval, hcompare⟩ := compare_int_fails clock b table f slots hc ht op v
    obtain ⟨_, hbetween⟩ := compare_int_fails clock b table f slots hc ht .gtEq low
    refine ⟨⟨fun ⟨_, mask, _, hok, _⟩ => ?_, fun h => absurd h ht⟩,
      ⟨fun ⟨_, mask, _, hok, _⟩ => ?_, fun h => absurd h ht⟩⟩
    · rw [evalExpr, evalBinop, heval, ok_bind, evalExpr, ok_bind] at hok
      cases op <;> first | exact absurd hop (by decide) | (rw [hcompare] at hok; cases hok)
    · rw [evalExpr, evalBetween, heval, ok_bind, evalExpr, ok_bind, evalExpr, ok_bind,
        hbetween] at hok
      cases hok

end Eval

def oneLog (severity : Slot String) : RecordBatch Exact where
  schema := [⟨"severity_text", .utf8, true⟩, ⟨"body", .utf8, true⟩]
  numRows := 1
  columns := [⟨.utf8, [severity]⟩, ⟨.utf8, [.valid "x"]⟩]
  typed := rfl
  sized := by simp [ArrayRef.len]
  nonNull := by simp

def bodyOrSeverity : Expr Exact :=
  .binOp .or (.binOp .eq (.column none "body") (.literal (.str "x")))
    (.binOp .eq (.column none "severity_text") (.literal (.str "WARN")))

theorem isPredicate_bodyOrSeverity (severity : Slot String) :
    IsPredicate 0 (oneLog severity) bodyOrSeverity :=
  ⟨⟨rfl, .utf8, by decide, ⟨_, rfl, rfl⟩, ⟨_, rfl, rfl⟩⟩,
    ⟨rfl, .utf8, by decide, ⟨_, rfl, rfl⟩, ⟨_, rfl, rfl⟩⟩⟩

def gaugeRow : List (Cell Exact) :=
  [⟨.uint64, .valid 1⟩, ⟨.uint64, .null 0⟩, ⟨.utf8, .valid "queue_depth"⟩, ⟨.utf8, .null ""⟩,
    ⟨.utf8, .null ""⟩, ⟨.int8, .valid 0⟩, ⟨.float64, .null (.num 0)⟩, ⟨.int64, .valid 7⟩,
    ⟨.uint64, .null 0⟩, ⟨.float64, .null (.num 0)⟩, ⟨.binary, .null []⟩, ⟨.binary, .null []⟩,
    ⟨.utf8, .null ""⟩, ⟨.utf8, .null ""⟩, ⟨.utf8, .null ""⟩, ⟨.utf8, .null ""⟩, ⟨.utf8, .null ""⟩]

def gaugeBatch : RecordBatch Exact :=
  RecordBatch.ofRow metricSchema gaugeRow ⟨rfl, by decide +kernel⟩

/-- `value_int > 5` and `value_int BETWEEN 5 AND 9` are integer comparisons. -/
theorem value_int_comparisons :
    ComparesIntegers 0 gaugeBatch none ⟨"value_int", .int64, true⟩ .gt 5 ∧
      BetweenIntegers 0 gaugeBatch none ⟨"value_int", .int64, true⟩ 5 9 := by
  have h := int_comparison_iff 0 .metric gaugeBatch rfl ⟨"value_int", .int64, true⟩
    (by decide +kernel) none .gt rfl 5 5 9
  exact ⟨h.1.mpr rfl, h.2.mpr rfl⟩

/-- `timestamp_ns >= 1` and `metric_type = 0` are refused. -/
theorem unsigned_and_narrow_refused :
    ¬ ComparesIntegers 0 gaugeBatch none ⟨"timestamp_ns", .uint64, false⟩ .gtEq 1 ∧
      ¬ ComparesIntegers 0 gaugeBatch none ⟨"metric_type", .int8, false⟩ .eq 0 := by
  have htimestamp : evalExpr 0 gaugeBatch (.binOp .gtEq (.column none "timestamp_ns")
      (.literal (.int 1))) =
      execution "unsupported comparison between UInt64 and Int64" := rfl
  have htype : evalExpr 0 gaugeBatch (.binOp .eq (.column none "metric_type")
      (.literal (.int 0))) = execution "unsupported comparison between Int8 and Int64" := rfl
  refine ⟨fun ⟨_, _, _, hok, _⟩ => ?_, fun ⟨_, _, _, hok, _⟩ => ?_⟩
  · rw [htimestamp] at hok
    cases hok
  · rw [htype] at hok
    cases hok

end InfraLens.Query
