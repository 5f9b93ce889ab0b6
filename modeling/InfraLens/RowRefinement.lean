import InfraLens.RowSemantics
import InfraLens.LibExcept

/-! The batch evaluator refines the meaning of expressions on rows, one lemma for each
kind of node. -/
namespace InfraLens.Query
open Schema Arrow LibExcept

variable {F : Type} [FloatOps F]

/-! ### Kernels, slot by slot -/

theorem comparator_isSome (t : DataType) :
    (comparator t : Option (Value F t → Value F t → Ordering)).isSome =
      decide (t ∈ [.uint64, .int64, .float64, .utf8]) := by
  cases t <;> rfl

theorem compare_ok (op : BinOp) (t u : DataType) (h : compares op t u = true) :
    ∃ g : Slot (Value F t) → Slot (Value F u) → Slot Bool,
      (∀ xs ys, xs.length = ys.length →
        compareArrays ⟨t, xs⟩ ⟨u, ys⟩ op = .ok (List.zipWith g xs ys)) ∧
      ∀ x y, rowCompare ⟨t, x⟩ ⟨u, y⟩ op = .ok (g x y) := by
  simp only [compares, Bool.and_eq_true, decide_eq_true_eq] at h
  obtain ⟨⟨hop, ht⟩, rfl⟩ := h
  obtain ⟨test, htest⟩ := Option.isSome_iff_exists.mp hop
  obtain ⟨cmp, hcmp⟩ := Option.isSome_iff_exists.mp
    ((comparator_isSome (F := F) u).trans (decide_eq_true ht))
  refine ⟨Slot.map2 fun a b => test (cmp a b), ?_, ?_⟩
  · intro xs ys hlen
    simp [compareArrays, htest, hcmp, binary, hlen]
  · intro x y
    simp [rowCompare, htest, hcmp]

theorem compare_fails (op : BinOp) (t u : DataType) (h : compares op t u = false) :
    (∀ xs ys, compareArrays (⟨t, xs⟩ : ArrayRef F) ⟨u, ys⟩ op = unsupportedComparison t u) ∧
      ∀ x y, rowCompare (⟨t, x⟩ : Cell F) ⟨u, y⟩ op = unsupportedComparison t u := by
  cases htest : op.comparison with
  | none => exact ⟨fun xs ys => by simp [compareArrays, htest], fun x y => by
      simp [rowCompare, htest]⟩
  | some test =>
    cases hcmp : (comparator t : Option (Value F t → Value F t → Ordering)) with
    | none => exact ⟨fun xs ys => by simp [compareArrays, htest, hcmp], fun x y => by
        simp [rowCompare, htest, hcmp]⟩
    | some cmp =>
      have hmem : t ∈ [.uint64, .int64, .float64, .utf8] := by
        have hs := comparator_isSome (F := F) t
        rw [hcmp] at hs
        simpa using hs.symm
      have hne : u ≠ t := by
        intro he
        simp [compares, htest, hmem, he] at h
      exact ⟨fun xs ys => by simp [compareArrays, htest, hcmp, hne], fun x y => by
        simp [rowCompare, htest, hcmp, hne]⟩

theorem tryZip_cases {α β γ : Type} (zero : γ) (f : α → β → Except ArrowError γ)
    (xs : List (Slot α)) (ys : List (Slot β)) :
    (∃ zs, tryZip zero f xs ys = .ok zs ∧
        List.zipWith (Slot.tryMap2 zero f) xs ys = zs.map .ok) ∨
      ∃ s, tryZip zero f xs ys = .error s ∧
        .error s ∈ List.zipWith (Slot.tryMap2 zero f) xs ys := by
  induction xs generalizing ys with
  | nil => exact Or.inl ⟨[], rfl, rfl⟩
  | cons x xs ih =>
    cases ys with
    | nil => exact Or.inl ⟨[], rfl, rfl⟩
    | cons y ys =>
      cases hx : Slot.tryMap2 zero f x y with
      | error s =>
        refine Or.inr ⟨s, ?_, ?_⟩
        · simp only [tryZip, hx]
          rfl
        · simp [List.zipWith_cons_cons, hx]
      | ok z =>
        obtain ⟨zs, hz, hcells⟩ | ⟨s, hs, hmem⟩ := ih ys
        · refine Or.inl ⟨z :: zs, ?_, ?_⟩
          · simp only [tryZip, hx, hz]
            rfl
          · simp [List.zipWith_cons_cons, hx, hcells]
        · refine Or.inr ⟨s, ?_, ?_⟩
          · simp only [tryZip, hx, hs]
            rfl
          · simp [List.zipWith_cons_cons, hmem]

theorem mapM_cases {α β : Type} (f : α → Res β) (xs : List α) :
    (∃ ys, xs.mapM f = .ok ys ∧ xs.map f = ys.map .ok) ∨
      ∃ s, xs.mapM f = .error s ∧ .error s ∈ xs.map f := by
  induction xs with
  | nil => exact Or.inl ⟨[], rfl, rfl⟩
  | cons x xs ih =>
    rw [List.mapM_cons]
    cases hx : f x with
    | error s => exact Or.inr ⟨s, rfl, by simp [hx]⟩
    | ok y =>
      obtain ⟨ys, hy, hcells⟩ | ⟨s, hs, hmem⟩ := ih
      · exact Or.inl ⟨y :: ys, by rw [hy]; rfl, by simp [hx, hcells]⟩
      · exact Or.inr ⟨s, by rw [hs]; rfl, List.mem_cons_of_mem _ hmem⟩

/-! ### Binary operators -/

section Binary
variable {ρ : Type} (rows : List ρ)

omit [FloatOps F] in
theorem ok_of_cells (f : ρ → Res (Cell F)) (t : DataType) (xs : List (Slot (Value F t)))
    (h : rows.map f = xs.map fun x => .ok ⟨t, x⟩) (row : ρ) (hrow : row ∈ rows) :
    ∃ x, f row = .ok ⟨t, x⟩ := by
  obtain ⟨x, _, hx⟩ := List.mem_map.mp (h ▸ List.mem_map_of_mem (f := f) hrow)
  exact ⟨x, hx.symm⟩

omit [FloatOps F] in
theorem refines_bind2 (f g : ρ → Res (Cell F)) (v w : Verdict) (r s : Res (ArrayRef F))
    (k : Cell F → Cell F → Res (Cell F)) (K : ArrayRef F → ArrayRef F → Res (ArrayRef F))
    (c : DataType → DataType → Verdict) (hf : Refines v (rows.map f) r)
    (hg : Refines w (rows.map g) s)
    (hfin : ∀ t u xs ys, xs.length = ys.length → Refines (c t u)
      (List.zipWith (fun x y => k ⟨t, x⟩ ⟨u, y⟩) xs ys) (K ⟨t, xs⟩ ⟨u, ys⟩)) :
    Refines (v.bind fun t => w.bind (c t)) (rows.map fun row => f row >>= fun a =>
      g row >>= fun b => k a b) (r >>= fun a => s >>= fun b => K a b) := by
  refine refines_bind rows f _ v r _ _ hf fun t xs _ hx => ?_
  have hswap : (rows.map fun row => f row >>= fun a => g row >>= fun b => k a b) =
      rows.map fun row => g row >>= fun b => f row >>= fun a => k a b := by
    apply List.map_congr_left
    intro row hrow
    obtain ⟨x, hx'⟩ := ok_of_cells rows f t xs hx row hrow
    rw [hx']
    rfl
  rw [hswap]
  refine refines_bind rows g _ w s _ _ hg fun u ys _ hy => ?_
  obtain ⟨hcells, hlen⟩ := cells_zip rows f g xs ys _ _ hx hy
    fun (a b : Res (Cell F)) => b >>= fun b => a >>= fun a => k a b
  rw [hcells]
  exact hfin t u xs ys hlen

omit [FloatOps F] in
theorem requireBoolean_of_ne (t : DataType) (h : t ≠ .boolean) (xs : List (Slot (Value F t)))
    (msg : String) : requireBoolean (⟨t, xs⟩ : ArrayRef F) msg = execution msg := by
  cases t <;> first | rfl | exact absurd rfl h

omit [FloatOps F] in
theorem rowBoolean_of_ne (t : DataType) (h : t ≠ .boolean) (x : Slot (Value F t))
    (msg : String) : rowBoolean (⟨t, x⟩ : Cell F) msg = execution msg := by
  cases t <;> first | rfl | exact absurd rfl h

omit [FloatOps F] in
theorem refines_zipWith {α β : Type} (t : DataType) (g : α → β → Slot (Value F t))
    (xs : List α) (ys : List β) :
    Refines (.typed t) (List.zipWith (fun x y => (.ok ⟨t, g x y⟩ : Res (Cell F))) xs ys)
      (.ok ⟨t, List.zipWith g xs ys⟩) :=
  Or.inl ⟨_, rfl, by rw [List.map_zipWith]⟩

omit [FloatOps F] in
theorem refines_error_zip {α β : Type} (q : QueryError) (g : α → β → Res (Cell F))
    (xs : List α) (ys : List β) (h : ∀ x y, g x y = .error (.error q)) :
    Refines .fails (List.zipWith g xs ys) (.error (.error q) : Res (ArrayRef F)) := by
  rw [← List.map_uncurry_zip_eq_zipWith]
  exact refines_fails (xs.zip ys) (fun p => g p.1 p.2) q fun p => h p.1 p.2

omit [FloatOps F] in
theorem refines_connective (f : Bool → Bool → Bool) (msgL msgR : String) (t u : DataType)
    (xs : List (Slot (Value F t))) (ys : List (Slot (Value F u)))
    (hlen : xs.length = ys.length) :
    Refines (if t = .boolean ∧ u = .boolean then .typed .boolean else .fails)
      (List.zipWith (fun x y => rowConnective f msgL msgR ⟨t, x⟩ ⟨u, y⟩) xs ys)
      (requireBoolean ⟨t, xs⟩ msgL >>= fun lb => requireBoolean ⟨u, ys⟩ msgR >>= fun rb =>
        (binary f lb rb).map booleans) := by
  by_cases ht : t = .boolean
  · subst ht
    by_cases hu : u = .boolean
    · subst hu
      rw [if_pos ⟨rfl, rfl⟩]
      have hbin : binary f xs ys = .ok (List.zipWith (Slot.map2 f) xs ys) := if_pos hlen
      change Refines _ _ ((binary f xs ys).map booleans)
      rw [hbin]
      exact refines_zipWith .boolean (Slot.map2 f) xs ys
    · rw [if_neg fun h => hu h.2, requireBoolean_of_ne u hu]
      refine refines_error_zip _ _ xs ys fun x y => ?_
      rw [rowConnective, rowBoolean_of_ne u hu]
      rfl
  · rw [if_neg fun h => ht h.1, requireBoolean_of_ne t ht]
    refine refines_error_zip _ _ xs ys fun x y => ?_
    rw [rowConnective, rowBoolean_of_ne t ht]
    rfl

theorem refines_compare (op : BinOp) (t u : DataType) (xs : List (Slot (Value F t)))
    (ys : List (Slot (Value F u))) (hlen : xs.length = ys.length) :
    Refines (F := F) (if compares op t u then .typed .boolean else .fails)
      (List.zipWith (fun x y => (rowCompare (⟨t, x⟩ : Cell F) ⟨u, y⟩ op).map booleanCell) xs ys)
      ((compareArrays (⟨t, xs⟩ : ArrayRef F) ⟨u, ys⟩ op).map booleans) := by
  cases h : compares op t u with
  | true =>
    obtain ⟨g, harrays, hrow⟩ := compare_ok (F := F) op t u h
    rw [harrays xs ys hlen]
    simp only [hrow]
    exact refines_zipWith .boolean g xs ys
  | false =>
    obtain ⟨harrays, hrow⟩ := compare_fails (F := F) op t u h
    rw [harrays]
    exact refines_error_zip _ _ xs ys fun x y => by rw [hrow]; rfl

omit [FloatOps F] in
theorem refines_tryBinary (f : Int64 → Int64 → Except ArrowError Int64)
    (xs ys : List (Slot Int64)) (hlen : xs.length = ys.length) :
    Refines (.typed .int64)
      (List.zipWith (fun x y => (Slot.tryMap2 0 f x y).map fun z => (⟨.int64, z⟩ : Cell F)) xs ys)
      ((tryBinary 0 f xs ys).map fun zs => (⟨.int64, zs⟩ : ArrayRef F)) := by
  have hcells : List.zipWith
      (fun x y => (Slot.tryMap2 0 f x y).map fun z => (⟨.int64, z⟩ : Cell F)) xs ys =
      (List.zipWith (Slot.tryMap2 0 f) xs ys).map
        fun r => r.map fun z => (⟨.int64, z⟩ : Cell F) := by
    rw [List.map_zipWith]
  rw [hcells, tryBinary, if_pos hlen]
  obtain ⟨zs, hz, hzip⟩ | ⟨s, hs, hmem⟩ := tryZip_cases (0 : Int64) f xs ys
  · refine Or.inl ⟨zs, by rw [hz]; rfl, ?_⟩
    rw [hzip, List.map_map]
    rfl
  · refine Or.inr ⟨s, by rw [hs]; rfl, ?_⟩
    exact List.mem_map.mpr ⟨_, hmem, rfl⟩

theorem refines_arithmetic (op : BinOp) (t u : DataType) (xs : List (Slot (Value F t)))
    (ys : List (Slot (Value F u))) (hlen : xs.length = ys.length)
    (hop : op ∈ [.add, .sub, .mul, .div, .mod]) :
    Refines (checkArithmetic op t u)
      (List.zipWith (fun x y => rowArithmetic (⟨t, x⟩ : Cell F) ⟨u, y⟩ op) xs ys)
      (arithmeticArrays (⟨t, xs⟩ : ArrayRef F) ⟨u, ys⟩ op) := by
  cases harith : (op.arithmetic : Option (_ × (F → F → F))) with
  | none =>
    have hmod : op = .mod := by
      cases op <;> first | rfl | exact absurd hop (by decide) | cases harith
    subst hmod
    exact refines_error_zip _ _ xs ys fun _ _ => rfl
  | some kernels =>
    obtain ⟨int, float⟩ := kernels
    have hmod : op ≠ .mod := by
      intro he
      subst he
      cases harith
    rw [checkArithmetic, if_neg hmod]
    by_cases hint : t = .int64 ∧ u = .int64
    · obtain ⟨rfl, rfl⟩ := hint
      rw [if_pos ⟨rfl, rfl⟩]
      simp only [rowArithmetic, arithmeticArrays, harith]
      exact refines_tryBinary int xs ys hlen
    · rw [if_neg hint]
      by_cases hfloat : t = .float64 ∧ u = .float64
      · obtain ⟨rfl, rfl⟩ := hfloat
        rw [if_pos ⟨rfl, rfl⟩]
        simp only [rowArithmetic, arithmeticArrays, harith, binary, if_pos hlen]
        exact refines_zipWith .float64 (Slot.map2 float) xs ys
      · rw [if_neg hfloat]
        have hbad : arithmeticArrays (⟨t, xs⟩ : ArrayRef F) ⟨u, ys⟩ op =
            execution "unsupported arithmetic types" := by
          simp only [arithmeticArrays, harith]
          split <;> simp_all
        have hbadRow : ∀ x y, rowArithmetic (⟨t, x⟩ : Cell F) ⟨u, y⟩ op =
            execution "unsupported arithmetic types" := by
          intro x y
          simp only [rowArithmetic, harith]
          split <;> simp_all
        rw [hbad]
        exact refines_error_zip _ _ xs ys hbadRow

theorem refines_binop (f g : ρ → Res (Cell F)) (v w : Verdict) (r s : Res (ArrayRef F))
    (op : BinOp) (hf : Refines v (rows.map f) r) (hg : Refines w (rows.map g) s) :
    Refines (v.bind fun t => w.bind (checkBinop op t))
      (rows.map fun row => rowBinop op (f row) (g row)) (evalBinop op r s) := by
  unfold evalBinop rowBinop
  refine refines_bind2 rows f g v w r s _ _ _ hf hg ?_
  intro t u xs ys hlen
  cases op with
  | and => exact refines_connective _ _ _ t u xs ys hlen
  | or => exact refines_connective _ _ _ t u xs ys hlen
  | add => exact refines_arithmetic .add t u xs ys hlen (by decide)
  | sub => exact refines_arithmetic .sub t u xs ys hlen (by decide)
  | mul => exact refines_arithmetic .mul t u xs ys hlen (by decide)
  | div => exact refines_arithmetic .div t u xs ys hlen (by decide)
  | mod => exact refines_arithmetic .mod t u xs ys hlen (by decide)
  | eq => exact refines_compare .eq t u xs ys hlen
  | notEq => exact refines_compare .notEq t u xs ys hlen
  | lt => exact refines_compare .lt t u xs ys hlen
  | ltEq => exact refines_compare .ltEq t u xs ys hlen
  | gt => exact refines_compare .gt t u xs ys hlen
  | gtEq => exact refines_compare .gtEq t u xs ys hlen

end Binary

/-! ### Unary operators -/

section Unary
variable {ρ : Type} (rows : List ρ) (f : ρ → Res (Cell F)) (v : Verdict) (r : Res (ArrayRef F))

omit [FloatOps F] in
theorem refines_bind1 (k : Cell F → Res (Cell F)) (K : ArrayRef F → Res (ArrayRef F))
    (c : DataType → Verdict) (hf : Refines v (rows.map f) r)
    (hfin : ∀ t xs, Refines (c t) (xs.map fun x => k ⟨t, x⟩) (K ⟨t, xs⟩)) :
    Refines (v.bind c) (rows.map fun row => f row >>= k) (r >>= K) := by
  refine refines_bind rows f (fun _ => k) v r K c hf fun t xs _ hx => ?_
  have hcells : (rows.map fun row => f row >>= k) = xs.map fun x => k ⟨t, x⟩ := by
    have hcomp : (rows.map fun row => f row >>= k) = (rows.map f).map (· >>= k) := by
      rw [List.map_map]
      rfl
    rw [hcomp, hx, List.map_map]
    rfl
  rw [hcells]
  exact hfin t xs

omit [FloatOps F] in
theorem refines_map {α : Type} (t : DataType) (g : α → Slot (Value F t)) (xs : List α) :
    Refines (.typed t) (xs.map fun x => (.ok ⟨t, g x⟩ : Res (Cell F))) (.ok ⟨t, xs.map g⟩) :=
  Or.inl ⟨_, rfl, by rw [List.map_map]; rfl⟩

theorem refines_negate (hf : Refines v (rows.map f) r) :
    Refines (v.bind checkNegate) (rows.map fun row => f row >>= rowNegate)
      (r >>= negateNumeric) := by
  refine refines_bind1 rows f v r _ _ _ hf fun t xs => ?_
  cases t with
  | int64 =>
    have hcells : (xs.map fun x => rowNegate (⟨.int64, x⟩ : Cell F)) =
        (xs.map fun x => (negI64 x.value).map Slot.valid).map
          fun r => r.map fun z => (⟨.int64, z⟩ : Cell F) := by
      rw [List.map_map]
      apply List.map_congr_left
      intro x _
      simp only [rowNegate, Function.comp_apply]
      cases negI64 x.value <;> rfl
    rw [hcells]
    obtain ⟨zs, hz, hmap⟩ | ⟨s, hs, hmem⟩ :=
      mapM_cases (fun x : Slot Int64 => (negI64 x.value).map Slot.valid) xs
    · refine Or.inl ⟨zs, by simp only [negateNumeric, hz]; rfl, ?_⟩
      rw [hmap, List.map_map]
      rfl
    · refine Or.inr ⟨s, by simp only [negateNumeric, hs]; rfl, ?_⟩
      exact List.mem_map.mpr ⟨_, hmem, rfl⟩
  | float64 => exact refines_map .float64 _ xs
  | uint64 => exact refines_fails xs _ _ fun _ => rfl
  | int32 => exact refines_fails xs _ _ fun _ => rfl
  | int8 => exact refines_fails xs _ _ fun _ => rfl
  | utf8 => exact refines_fails xs _ _ fun _ => rfl
  | binary => exact refines_fails xs _ _ fun _ => rfl
  | boolean => exact refines_fails xs _ _ fun _ => rfl

omit [FloatOps F] in
theorem refines_not (hf : Refines v (rows.map f) r) :
    Refines (v.bind (checkOnly .boolean)) (rows.map fun row => f row >>= rowNot)
      (r >>= evalNot) := by
  refine refines_bind1 rows f v r _ _ _ hf fun t xs => ?_
  by_cases ht : t = .boolean
  · subst ht
    rw [checkOnly, if_pos rfl]
    exact refines_map .boolean (Slot.map (!·)) xs
  · rw [checkOnly, if_neg ht, evalNot, requireBoolean_of_ne t ht]
    refine refines_fails xs _ _ fun x => ?_
    rw [rowNot, rowBoolean_of_ne t ht]
    rfl

omit [FloatOps F] in
theorem refines_nullTest (g : Bool → Bool) (hf : Refines v (rows.map f) r) :
    Refines (F := F) (v.bind fun _ => .typed .boolean)
      (rows.map fun row => f row >>= fun c => pure (booleanCell (.valid (g c.slot.isNull))))
      (r >>= fun a => pure (booleans (a.slots.map fun x => .valid (g x.isNull)))) := by
  refine refines_bind1 rows f v r _ _ _ hf fun t xs => ?_
  exact refines_map .boolean (fun x => .valid (g x.isNull)) xs

omit [FloatOps F] in
theorem refines_like (pattern : String) (negated : Bool) (hf : Refines v (rows.map f) r) :
    Refines (v.bind (checkOnly .utf8))
      (rows.map fun row => f row >>= fun c => rowLike c pattern negated)
      (r >>= fun a => evalLike a pattern negated) := by
  refine refines_bind1 rows f v r _ _ _ hf fun t xs => ?_
  by_cases ht : t = .utf8
  · subst ht
    have hrow : ∀ x, rowLike (⟨.utf8, x⟩ : Cell F) pattern negated =
        .ok ⟨.boolean, .valid (likeMatch pattern negated x.value)⟩ := fun _ => rfl
    have heval : evalLike (⟨.utf8, xs⟩ : ArrayRef F) pattern negated =
        .ok ⟨.boolean, xs.map fun x => .valid (likeMatch pattern negated x.value)⟩ := rfl
    have hcheck : checkOnly .utf8 .utf8 = .typed .boolean := rfl
    simp only [hrow]
    rw [hcheck, heval]
    exact refines_map .boolean _ xs
  · have hcheck : checkOnly .utf8 t = .fails := if_neg ht
    have hbad : evalLike (⟨t, xs⟩ : ArrayRef F) pattern negated =
        execution "LIKE requires text column" := by
      cases t with
      | utf8 => exact absurd rfl ht
      | _ => rfl
    have hbadRow : ∀ x, rowLike (⟨t, x⟩ : Cell F) pattern negated =
        execution "LIKE requires text column" := by
      cases t with
      | utf8 => exact absurd rfl ht
      | _ => exact fun _ => rfl
    rw [hcheck, hbad]
    exact refines_fails xs _ _ hbadRow

end Unary

/-! ### BETWEEN and IN -/

section Lists
variable {ρ : Type} (rows : List ρ)

omit [FloatOps F] in
theorem refines_bind3 (f g h : ρ → Res (Cell F)) (v w z : Verdict) (r s q : Res (ArrayRef F))
    (k : Cell F → Cell F → Cell F → Res (Cell F))
    (K : ArrayRef F → ArrayRef F → ArrayRef F → Res (ArrayRef F))
    (c : DataType → DataType → DataType → Verdict) (hf : Refines v (rows.map f) r)
    (hg : Refines w (rows.map g) s) (hh : Refines z (rows.map h) q)
    (hfin : ∀ t u o xs ys zs, xs.length = ys.length → xs.length = zs.length → Refines (c t u o)
      (List.zipWith (fun x (p : _ × _) => k ⟨t, x⟩ ⟨u, p.1⟩ ⟨o, p.2⟩) xs (ys.zip zs))
      (K ⟨t, xs⟩ ⟨u, ys⟩ ⟨o, zs⟩)) :
    Refines (v.bind fun t => w.bind fun u => z.bind (c t u))
      (rows.map fun row => f row >>= fun a => g row >>= fun b => h row >>= fun d => k a b d)
      (r >>= fun a => s >>= fun b => q >>= fun d => K a b d) := by
  refine refines_bind rows f _ v r _ _ hf fun t xs _ hx => ?_
  have hswap : (rows.map fun row => f row >>= fun a => g row >>= fun b => h row >>= fun d =>
      k a b d) = rows.map fun row => g row >>= fun b => f row >>= fun a => h row >>= fun d =>
      k a b d := by
    apply List.map_congr_left
    intro row hrow
    obtain ⟨x, hx'⟩ := ok_of_cells rows f t xs hx row hrow
    rw [hx']
    rfl
  rw [hswap]
  refine refines_bind rows g _ w s _ _ hg fun u ys _ hy => ?_
  have hswap' : (rows.map fun row => g row >>= fun b => f row >>= fun a => h row >>= fun d =>
      k a b d) = rows.map fun row => h row >>= fun d => f row >>= fun a => g row >>= fun b =>
      k a b d := by
    apply List.map_congr_left
    intro row hrow
    obtain ⟨x, hx'⟩ := ok_of_cells rows f t xs hx row hrow
    obtain ⟨y, hy'⟩ := ok_of_cells rows g u ys hy row hrow
    rw [hx', hy']
    rfl
  rw [hswap']
  refine refines_bind rows h _ z q _ _ hh fun o zs _ hz => ?_
  obtain ⟨hpairs, hyz⟩ := cells_zip rows g h ys zs _ _ hy hz Prod.mk
  have hpairs' : (rows.map fun row => (g row, h row)) =
      (ys.zip zs).map fun p : _ × _ => ((.ok ⟨u, p.1⟩ : Res (Cell F)), .ok ⟨o, p.2⟩) := by
    rw [hpairs, List.zip, List.map_zipWith]
  obtain ⟨hcells, hlen⟩ := cells_zip rows f _ xs (ys.zip zs) _ _ hx hpairs'
    fun (a : Res (Cell F)) (p : Res (Cell F) × Res (Cell F)) =>
      p.2 >>= fun d => a >>= fun a => p.1 >>= fun b => k a b d
  rw [hcells]
  simp only [List.length_zip] at hlen
  exact hfin t u o xs ys zs (by omega) (by omega)

theorem zipWith_both {α β γ δ : Type} (g : α → β → δ) (g' : α → γ → δ) (op : δ → δ → δ)
    (xs : List α) (ys : List β) (zs : List γ) :
    List.zipWith op (List.zipWith g xs ys) (List.zipWith g' xs zs) =
      List.zipWith (fun x (p : β × γ) => op (g x p.1) (g' x p.2)) xs (ys.zip zs) := by
  induction xs generalizing ys zs with
  | nil => simp
  | cons x xs ih =>
    cases ys with
    | nil => simp
    | cons y ys =>
      cases zs with
      | nil => simp
      | cons z zs => simp [ih]

theorem refines_between (f g h : ρ → Res (Cell F)) (v w z : Verdict)
    (r s q : Res (ArrayRef F)) (hf : Refines v (rows.map f) r) (hg : Refines w (rows.map g) s)
    (hh : Refines z (rows.map h) q) :
    Refines (v.bind fun t => w.bind fun l => z.bind fun u =>
        if compares .gtEq t l && compares .ltEq t u then .typed .boolean else .fails)
      (rows.map fun row => rowBetween (f row) (g row) (h row)) (evalBetween r s q) := by
  unfold evalBetween rowBetween
  refine refines_bind3 rows f g h v w z r s q _ _ _ hf hg hh ?_
  intro t l u xs ys zs hy hz
  cases hge : compares .gtEq t l with
  | false =>
    obtain ⟨hges, hgeRow⟩ := compare_fails (F := F) .gtEq t l hge
    rw [hges]
    exact refines_error_zip _ _ xs (ys.zip zs) fun _ _ => by rw [hgeRow]; rfl
  | true =>
    obtain ⟨ge, hges, hgeRow⟩ := compare_ok (F := F) .gtEq t l hge
    cases hle : compares .ltEq t u with
    | false =>
      obtain ⟨hles, hleRow⟩ := compare_fails (F := F) .ltEq t u hle
      rw [hges xs ys hy, hles]
      exact refines_error_zip _ _ xs (ys.zip zs) fun _ _ => by rw [hgeRow, hleRow]; rfl
    | true =>
      obtain ⟨le, hles, hleRow⟩ := compare_ok (F := F) .ltEq t u hle
      have hand : computeAnd (List.zipWith ge xs ys) (List.zipWith le xs zs) =
          .ok (List.zipWith (fun x (p : _ × _) => Slot.map2 (· && ·) (ge x p.1) (le x p.2)) xs
            (ys.zip zs)) := by
        rw [computeAnd, binary, if_pos (by simp only [List.length_zipWith]; omega), zipWith_both]
      rw [hges xs ys hy, hles xs zs hz]
      simp only [hgeRow, hleRow]
      change Refines _ _ ((computeAnd _ _).map booleans)
      rw [hand]
      exact refines_zipWith .boolean _ xs (ys.zip zs)

section Masks
variable {t u : DataType} (g : Slot (Value F t) → Slot (Value F u) → Slot Bool)
  (ps : List (ρ × Slot (Value F t) × Slot Bool)) (ys : List (Slot (Value F u)))

/-- Each row with its operand and its mask, after one more item of the list. -/
def nextMasks : List (ρ × Slot (Value F t) × Slot Bool) :=
  List.zipWith (fun p y => (p.1, p.2.1, Slot.map2 (· || ·) p.2.2 (g p.2.1 y))) ps ys

omit [FloatOps F] in
theorem map_nextMasks {β : Type} (k : ρ → Slot (Value F t) → β) (h : ps.length = ys.length) :
    ((nextMasks g ps ys).map fun p => k p.1 p.2.1) = ps.map fun p => k p.1 p.2.1 := by
  induction ps generalizing ys with
  | nil => rfl
  | cons p ps ih =>
    cases ys with
    | nil => cases h
    | cons y ys =>
      have hrest := ih ys (Nat.succ.inj h)
      simpa [nextMasks] using hrest

omit [FloatOps F] in
theorem masks_nextMasks :
    (nextMasks g ps ys).map (fun p => p.2.2) =
      List.zipWith (Slot.map2 (· || ·)) (ps.map fun p => p.2.2)
        (List.zipWith g (ps.map fun p => p.2.1) ys) := by
  induction ps generalizing ys with
  | nil => rfl
  | cons p ps ih =>
    cases ys with
    | nil => rfl
    | cons y ys =>
      have hrest := ih ys
      simpa [nextMasks] using hrest

end Masks

/-- The loop of `IN`, from any mask on: each row has its operand and its own mask. -/
theorem refines_inMask {ε : Type} (t : DataType) (ev : ε → Res (ArrayRef F))
    (rowOf : ε → ρ → Res (Cell F)) (ck : ε → Verdict) (es : List ε)
    (ps : List (ρ × Slot (Value F t) × Slot Bool))
    (h : ∀ e ∈ es, Refines (ck e) (ps.map fun p => rowOf e p.1) (ev e)) :
    Refines (F := F) (checkIn t (es.map ck))
      (ps.map fun p => (rowInMask ⟨t, p.2.1⟩ p.2.2 (es.map fun e => rowOf e p.1)).map booleanCell)
      ((inMask ⟨t, ps.map fun p => p.2.1⟩ (ps.map fun p => p.2.2) (es.map ev)).map booleans) := by
  induction es generalizing ps with
  | nil => exact refines_map .boolean (fun p : ρ × Slot (Value F t) × Slot Bool => p.2.2) ps
  | cons e es ih =>
    simp only [List.map_cons, checkIn, rowInMask, inMask, map_of_bind]
    refine refines_bind ps (fun p => rowOf e p.1) _ (ck e) (ev e) _ _ (h e List.mem_cons_self) ?_
    intro u ys _ hy
    obtain ⟨hcells, hlen⟩ := cells_zip ps id (fun p => rowOf e p.1) ps ys id _ (by simp) hy
      fun (p : ρ × Slot (Value F t) × Slot Bool) (c : Res (Cell F)) => c >>= fun c =>
        rowCompare ⟨t, p.2.1⟩ c .eq >>= fun eq =>
          (rowInMask ⟨t, p.2.1⟩ (Slot.map2 (· || ·) p.2.2 eq)
            (es.map fun e => rowOf e p.1)).map booleanCell
    simp only [id] at hcells
    rw [hcells]
    cases hc : compares .eq t u with
    | false =>
      obtain ⟨harrays, hrow⟩ := compare_fails (F := F) .eq t u hc
      rw [harrays]
      exact refines_error_zip _ _ ps ys fun _ _ => by rw [ok_bind, hrow]; rfl
    | true =>
      obtain ⟨g, harrays, hrow⟩ := compare_ok (F := F) .eq t u hc
      have hor : computeOr (ps.map fun p => p.2.2) (List.zipWith g (ps.map fun p => p.2.1) ys) =
          .ok ((nextMasks g ps ys).map fun p => p.2.2) := by
        rw [masks_nextMasks, computeOr, binary,
          if_pos (by simp only [List.length_map, List.length_zipWith]; omega)]
      have hnext := ih (nextMasks g ps ys) fun e' he' => by
        rw [map_nextMasks g ps ys (fun row _ => rowOf e' row) hlen]
        exact h e' (List.mem_cons_of_mem e he')
      rw [map_nextMasks g ps ys (fun _ x => x) hlen] at hnext
      simp only [ok_bind, hrow, harrays _ ys ((List.length_map _).trans hlen), hor, if_true]
      simp only [nextMasks, List.map_zipWith] at hnext ⊢
      exact hnext

theorem refines_in {ε : Type} (f : ρ → Res (Cell F)) (v : Verdict) (r : Res (ArrayRef F))
    (ev : ε → Res (ArrayRef F)) (rowOf : ε → ρ → Res (Cell F)) (ck : ε → Verdict) (es : List ε)
    (hf : Refines v (rows.map f) r)
    (h : ∀ e ∈ es, Refines (ck e) (rows.map (rowOf e)) (ev e)) :
    Refines (v.bind fun t => checkIn t (es.map ck))
      (rows.map fun row => rowIn (f row) (es.map fun e => rowOf e row)) (evalIn r (es.map ev)) := by
  unfold evalIn rowIn
  refine refines_bind rows f _ v r _ _ hf fun t xs _ hx => ?_
  obtain ⟨hcells, hlen⟩ := cells_zip rows id f rows xs id _ (by simp) hx
    fun (row : ρ) (c : Res (Cell F)) => c >>= fun val =>
      (rowInMask val (.valid false) (es.map fun e => rowOf e row)).map booleanCell
  simp only [id] at hcells
  rw [hcells]
  -- every row starts with the mask false
  have hfst : (rows.zip xs).map Prod.fst = rows := List.map_fst_zip (by omega)
  have hsnd : (rows.zip xs).map Prod.snd = xs := List.map_snd_zip (by omega)
  have hloop := refines_inMask t ev rowOf ck es
    ((rows.zip xs).map fun p => (p.1, p.2, Slot.valid false)) fun e he => by
      have hrows : ((rows.zip xs).map fun p => (p.1, p.2, Slot.valid false)).map
          (fun p => rowOf e p.1) = rows.map (rowOf e) := by
        rw [List.map_map]
        conv_rhs => rw [← hfst, List.map_map]
        rfl
      rw [hrows]
      exact h e he
  simp only [List.map_map, Function.comp_def] at hloop
  have hmask : ((rows.zip xs).map fun _ => Slot.valid false) =
      List.replicate xs.length (Slot.valid false) := by
    rw [List.map_const', List.length_zip]
    congr 1
    omega
  rw [hmask, hsnd] at hloop
  rw [List.zip, List.map_zipWith] at hloop
  exact hloop

/-! ### Functions -/

omit [FloatOps F] in
theorem refines_const (t : DataType) (x : Slot (Value F t)) :
    Refines (.typed t) (rows.map fun _ => (.ok ⟨t, x⟩ : Res (Cell F)))
      (.ok ⟨t, List.replicate rows.length x⟩) := by
  have hmap := refines_map (F := F) t (fun _ : ρ => x) rows
  have hslots : rows.map (fun _ : ρ => x) = List.replicate rows.length x := List.map_const' ..
  rw [hslots] at hmap
  exact hmap

/-- What every row says of a scalar argument of the wrong type. -/
def ScalarCells (types : List DataType) (msg : String) (t : DataType)
    (cells : List (Res (Cell F))) : Prop :=
  ∀ c ∈ cells, ∃ x, c = rowScalar types msg ⟨t, x⟩

omit [FloatOps F] in
theorem refines_scalar (types : List DataType) (msg : String) (cells : List (Res (Cell F)))
    (t : DataType) (xs : List (Slot (Value F t))) (h : cells.length = xs.length)
    (r : List (Slot (Value F t)) → Res (ArrayRef F)) (hcells : ScalarCells types msg t cells)
    (hcall : t ∈ types → r [] = .error .panic) (hbad : t ∉ types → r xs = execution msg) :
    Refines (checkScalar types t) cells (r xs) := by
  by_cases ht : t ∈ types
  · rw [checkScalar, if_pos ht]
    intro hnil
    have hxs : xs = [] := List.eq_nil_of_length_eq_zero (by rw [← h, hnil]; rfl)
    rw [hxs, hcall ht]
  · rw [checkScalar, if_neg ht]
    refine Or.inl ⟨_, hbad ht, ?_⟩
    intro c hc
    obtain ⟨x, rfl⟩ := hcells c hc
    exact if_neg ht

omit [FloatOps F] in
/-- A scalar argument is read off the first row, whatever is done with it then. -/
theorem refines_scalarI64 (cells : List (Res (Cell F))) (t : DataType)
    (xs : List (Slot (Value F t))) (h : cells.length = xs.length)
    (hcells : ScalarCells [.int64, .uint64] "expected integer scalar" t cells)
    (k : Int64 → Res (ArrayRef F)) :
    Refines (checkScalar [.int64, .uint64] t) cells (scalarI64 ⟨t, xs⟩ >>= k) := by
  refine refines_scalar _ _ cells t xs h (fun xs => scalarI64 ⟨t, xs⟩ >>= k) hcells ?_ ?_
  · intro ht
    cases t <;> first | rfl | exact absurd ht (by decide)
  · intro ht
    cases t <;> first | rfl | exact absurd (by decide) ht

theorem refines_scalarF64 (cells : List (Res (Cell F))) (t : DataType)
    (xs : List (Slot (Value F t))) (h : cells.length = xs.length)
    (hcells : ScalarCells [.float64, .int64] "expected float scalar" t cells)
    (k : F → Res (ArrayRef F)) :
    Refines (checkScalar [.float64, .int64] t) cells (scalarF64 ⟨t, xs⟩ >>= k) := by
  refine refines_scalar _ _ cells t xs h (fun xs => scalarF64 ⟨t, xs⟩ >>= k) hcells ?_ ?_
  · intro ht
    cases t <;> first | rfl | exact absurd ht (by decide)
  · intro ht
    cases t <;> first | rfl | exact absurd (by decide) ht

omit [FloatOps F] in
theorem scalarCells_map {α : Type} (types : List DataType) (msg : String) (t : DataType)
    (g : α → Slot (Value F t)) (xs : List α) :
    ScalarCells types msg t (xs.map fun x => rowScalar types msg (⟨t, g x⟩ : Cell F)) := by
  intro c hc
  obtain ⟨x, _, rfl⟩ := List.mem_map.mp hc
  exact ⟨g x, rfl⟩

section Functions
variable {ε : Type} (ev : ε → Res (ArrayRef F)) (rowOf : ε → ρ → Res (Cell F)) (ck : ε → Verdict)

omit [FloatOps F] in
theorem refines_windowed (value window : ε) (k : ArrayRef F → Int64 → Res (ArrayRef F))
    (hv : Refines (ck value) (rows.map (rowOf value)) (ev value))
    (hw : Refines (ck window) (rows.map (rowOf window)) (ev window)) :
    Refines ((ck value).bind fun _ => (ck window).bind (checkScalar [.int64, .uint64]))
      (rows.map fun row => rowOf value row >>= fun _ => rowOf window row >>= fun c =>
        rowScalar [.int64, .uint64] "expected integer scalar" c)
      (ev value >>= fun vals => ev window >>= fun w => scalarI64 w >>= fun ns => k vals ns) := by
  refine refines_bind2 rows (rowOf value) (rowOf window) _ _ _ _ _ _ _ hv hw ?_
  intro t u xs ys hlen
  rw [← List.map_uncurry_zip_eq_zipWith]
  refine refines_scalarI64 _ u ys ?_ ?_ (k ⟨t, xs⟩)
  · rw [List.length_map, List.length_zip]
    omega
  · exact scalarCells_map _ _ u Prod.snd (xs.zip ys)

theorem refines_unknown (clock : Int64) (name : String) (args : List ε)
    (hname : name ∉ ["now", "time_bucket", "rate", "delta", "histogram_quantile"]) :
    Refines (checkFunction name (args.map ck))
      (rows.map fun row => rowFunction clock name (args.map fun e => rowOf e row))
      (evalFunction clock rows.length name (args.map ev)) := by
  have hcheck : checkFunction name (args.map ck) = .fails := by
    unfold checkFunction
    split <;> simp_all
  have heval : evalFunction clock rows.length name (args.map ev) =
      execution ("unknown function '" ++ name ++ "'") := by
    unfold evalFunction
    split <;> simp_all
  have hrow : ∀ row, rowFunction clock name (args.map fun e => rowOf e row) =
      execution ("unknown function '" ++ name ++ "'") := by
    intro row
    unfold rowFunction
    split <;> simp_all
  rw [hcheck, heval]
  exact refines_fails rows _ _ hrow

theorem refines_function (clock : Int64) (name : String) (args : List ε)
    (h : ∀ e ∈ args, Refines (ck e) (rows.map (rowOf e)) (ev e)) :
    Refines (checkFunction name (args.map ck))
      (rows.map fun row => rowFunction clock name (args.map fun e => rowOf e row))
      (evalFunction clock rows.length name (args.map ev)) := by
  by_cases hname : name ∈ ["now", "time_bucket", "rate", "delta", "histogram_quantile"]
  · simp only [List.mem_cons, List.not_mem_nil, or_false] at hname
    obtain rfl | rfl | rfl | rfl | rfl := hname
    · exact refines_const rows .int64 (.valid clock)
    · match args, h with
      | [], _ => exact refines_fails rows _ _ fun _ => rfl
      | [_], _ => exact refines_fails rows _ _ fun _ => rfl
      | width :: _ :: _, h =>
        refine refines_bind1 rows (rowOf width) _ _ _ _ _ (h width List.mem_cons_self) ?_
        intro t xs
        exact refines_scalarI64 _ t xs (List.length_map _) (scalarCells_map _ _ t id xs) _
    · match args, h with
      | [], _ => exact refines_fails rows _ _ fun _ => rfl
      | [_], _ => exact refines_fails rows _ _ fun _ => rfl
      | value :: window :: _, h =>
        exact refines_windowed rows ev rowOf ck value window rate
          (h value List.mem_cons_self) (h window (List.mem_cons_of_mem _ List.mem_cons_self))
    · match args, h with
      | [], _ => exact refines_fails rows _ _ fun _ => rfl
      | [_], _ => exact refines_fails rows _ _ fun _ => rfl
      | value :: window :: _, h =>
        exact refines_windowed rows ev rowOf ck value window (fun vals _ => delta vals)
          (h value List.mem_cons_self) (h window (List.mem_cons_of_mem _ List.mem_cons_self))
    · match args, h with
      | [], _ => exact refines_fails rows _ _ fun _ => rfl
      | [_], _ => exact refines_fails rows _ _ fun _ => rfl
      | quantile :: _ :: _, h =>
        refine refines_bind1 rows (rowOf quantile) _ _ _ _ _ (h quantile List.mem_cons_self) ?_
        intro t xs
        exact refines_scalarF64 _ t xs (List.length_map _) (scalarCells_map _ _ t id xs) _
  · exact refines_unknown rows ev rowOf ck clock name args hname

end Functions

end Lists

/-! ### Expressions -/

theorem rowList_eq (clock : Int64) (schema : List Field) (row : List (Cell F))
    (es : List (Expr F)) : rowList clock schema row es = es.map (rowExpr clock schema row) := by
  induction es with
  | nil => rfl
  | cons e es ih => rw [rowList, ih, List.map_cons]

theorem evalList_eq (clock : Int64) (b : RecordBatch F) (es : List (Expr F)) :
    evalList clock b es = es.map (evalExpr clock b) := by
  induction es with
  | nil => rfl
  | cons e es ih => rw [evalList, ih, List.map_cons]

omit [FloatOps F] in
theorem checkList_eq (schema : List Field) (es : List (Expr F)) :
    checkList schema es = es.map (check schema) := by
  induction es with
  | nil => rfl
  | cons e es ih => rw [checkList, ih, List.map_cons]

theorem refines_literal (clock : Int64) (b : RecordBatch F) (lit : Literal F) :
    Refines (check b.schema (.literal lit))
      (b.rows.map fun row => rowExpr clock b.schema row (.literal lit))
      (evalExpr clock b (.literal lit)) := by
  simp only [check, rowExpr, evalExpr]
  rw [← length_rows b]
  cases lit with
  | int n => exact refines_const b.rows .int64 (.valid n)
  | float f => exact refines_const b.rows .float64 (.valid f)
  | str s => exact refines_const b.rows .utf8 (.valid s)
  | bool v => exact refines_const b.rows .boolean (.valid v)
  | null => exact refines_const b.rows .boolean (.null false)
  | intervalNs n => exact refines_const b.rows .int64 (.valid n)

theorem map_of_map_some {α β γ : Type} (f : α → γ) (g : α → Option β) (k : β → γ) (as : List α)
    (bs : List β) (h : as.map g = bs.map some) (hf : ∀ a x, g a = some x → f a = k x) :
    as.map f = bs.map k := by
  induction as generalizing bs with
  | nil =>
    cases bs with
    | nil => rfl
    | cons b bs => cases h
  | cons a as ih =>
    cases bs with
    | nil => cases h
    | cons b bs =>
      obtain ⟨ha, has⟩ := List.cons.inj h
      rw [List.map_cons, List.map_cons, hf a b ha, ih bs has]

theorem refines_column (clock : Int64) (b : RecordBatch F) (table : Option String)
    (name : String) :
    Refines (check (F := F) b.schema (.column table name))
      (b.rows.map fun row => rowExpr clock b.schema row (.column table name))
      (evalExpr clock b (.column table name)) := by
  simp only [check, rowExpr, evalExpr]
  have htypes : ∀ i : Nat,
      (b.columns[i]?).map ArrayRef.dataType = (b.schema[i]?).map Field.dataType := by
    intro i
    rw [← List.getElem?_map, b.typed, List.getElem?_map]
  cases hi : indexOf b.schema name with
  | none =>
    have hcol : b.column? name = none := by rw [RecordBatch.column?, hi]; rfl
    rw [hcol]
    exact refines_fails b.rows _ _ fun row => by rw [cell?, hi]; rfl
  | some i =>
    have hcolumn : b.column? name = b.columns[i]? := by rw [RecordBatch.column?, hi]; rfl
    have ht := htypes i
    obtain ⟨hlt, _⟩ := List.findIdx?_eq_some_iff_getElem.mp hi
    rw [Option.bind_some, hcolumn]
    cases hc : b.columns[i]? with
    | none =>
      rw [hc, List.getElem?_eq_getElem hlt] at ht
      cases ht
    | some c =>
      obtain ⟨f, hf, hty⟩ := Option.map_eq_some_iff.mp (ht.symm.trans (by rw [hc]; rfl))
      rw [hf]
      have hcells := map_cell? b name c (hcolumn.trans hc)
      change Refines (.typed f.dataType) _ _
      rw [hty]
      refine Or.inl ⟨c.slots, rfl, ?_⟩
      rw [ArrayRef.cells] at hcells
      have hmap := map_of_map_some (fun row => rowExpr clock b.schema row (.column table name)) _
        Except.ok _ _ hcells fun row x hx => by rw [rowExpr, hx]
      rw [List.map_map] at hmap
      simp only [rowExpr] at hmap
      exact hmap

theorem refines_expr (clock : Int64) (b : RecordBatch F) (e : Expr F) (h : e.FromParser) :
    Refines (check b.schema e) (b.rows.map fun row => rowExpr clock b.schema row e)
      (evalExpr clock b e) := by
  induction e using Expr.tree with
  | column table name => exact refines_column clock b table name
  | literal lit => exact refines_literal clock b lit
  | star => exact refines_fails b.rows _ _ fun _ => rfl
  | binOp op l r hl hr => exact refines_binop b.rows _ _ _ _ _ _ op (hl h.1) (hr h.2)
  | unaryOp op e ih =>
    cases op with
    | neg => exact refines_negate b.rows _ _ _ (ih h)
    | not => exact refines_not b.rows _ _ _ (ih h)
  | isNull e ih => exact refines_nullTest b.rows _ _ _ (fun null => null) (ih h)
  | isNotNull e ih => exact refines_nullTest b.rows _ _ _ (! ·) (ih h)
  | between e low high he hlow hhigh =>
    exact refines_between b.rows _ _ _ _ _ _ _ _ _ (he h.1) (hlow h.2.1) (hhigh h.2.2)
  | inList e list he hlist =>
    simp only [check, rowExpr, evalExpr, rowList_eq, evalList_eq, checkList_eq]
    exact refines_in b.rows _ _ _ _ (fun e row => rowExpr clock b.schema row e) _ list (he h.1)
      fun a ha => hlist a ha ((Expr.allFromParser_iff list).mp h.2 a ha)
  | like e pattern negated ih => exact refines_like b.rows _ _ _ pattern negated (ih h)
  | function name args hargs =>
    simp only [check, rowExpr, evalExpr, rowList_eq, evalList_eq, checkList_eq]
    rw [← length_rows b]
    exact refines_function b.rows _ (fun e row => rowExpr clock b.schema row e) _ clock name args
      fun a ha => hargs a ha ((Expr.allFromParser_iff args).mp h a ha)
  | timeBucket w e _ => exact h.elim
  | rate e w _ => exact h.elim
  | delta e w _ => exact h.elim
  | histogramQuantile q e buckets _ => exact h.elim
  | now => exact h.elim
  | interval ns =>
    simp only [check, rowExpr, evalExpr]
    rw [← length_rows b]
    exact refines_const b.rows .int64 (.valid ns)

end InfraLens.Query
