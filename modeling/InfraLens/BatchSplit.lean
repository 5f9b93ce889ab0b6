import InfraLens.RowRefinement

/-! Whether the value of an expression depends on where its batch is cut. It does when the
evaluation reaches a function that reads the first row, and a part of it may stop with an
overflow that only the negation of the least `i64` has. -/
namespace InfraLens.Query
open Schema Arrow

variable {F : Type}

/-! ### The overflow of unary minus -/

def reached {α : Type} (r : Res α) (next : α → Bool) : Bool :=
  match r with
  | .ok a => next a
  | .error _ => false

def isLeast : Cell F → Bool
  | ⟨.int64, x⟩ => x.value == Int64.minValue
  | _ => false

section Overflow
variable [FloatOps F]

def inNegatesLeast (val : Cell F) : List (Bool × Res (Cell F)) → Bool
  | [] => false
  | (least, item) :: items => least || reached item fun c =>
      reached (rowCompare val c .eq) fun _ => inNegatesLeast val items

omit [FloatOps F] in
/-- Of the arguments of a function, those evaluated before the first row is read. -/
def functionNegatesLeast (name : String) (args : List (Bool × Res (Cell F))) : Bool :=
  match name with
  | "time_bucket" | "histogram_quantile" =>
    match args with
    | (least, _) :: _ :: _ => least
    | _ => false
  | "rate" | "delta" =>
    match args with
    | (least, value) :: (least', _) :: _ => least || reached value fun _ => least'
    | _ => false
  | _ => false

mutual

/-- Evaluation on the row reaches a unary minus over the least `i64`. -/
def negatesLeast (clock : Int64) (schema : List Field) (row : List (Cell F)) : Expr F → Bool
  | .binOp _ l r => negatesLeast clock schema row l ||
      reached (rowExpr clock schema row l) fun _ => negatesLeast clock schema row r
  | .unaryOp .neg e => negatesLeast clock schema row e ||
      reached (rowExpr clock schema row e) isLeast
  | .unaryOp .not e => negatesLeast clock schema row e
  | .isNull e => negatesLeast clock schema row e
  | .isNotNull e => negatesLeast clock schema row e
  | .between e low high => negatesLeast clock schema row e ||
      reached (rowExpr clock schema row e) fun _ => negatesLeast clock schema row low ||
        reached (rowExpr clock schema row low) fun _ => negatesLeast clock schema row high
  | .inList e list => negatesLeast clock schema row e ||
      reached (rowExpr clock schema row e) fun val =>
        inNegatesLeast val (negatesLeastList clock schema row list)
  | .like e _ _ => negatesLeast clock schema row e
  | .function name args => functionNegatesLeast name (negatesLeastList clock schema row args)
  | _ => false

def negatesLeastList (clock : Int64) (schema : List Field) (row : List (Cell F)) :
    List (Expr F) → List (Bool × Res (Cell F))
  | [] => []
  | e :: es => (negatesLeast clock schema row e, rowExpr clock schema row e) ::
      negatesLeastList clock schema row es

end

/-! ### It is the only panic on a row -/

omit [FloatOps F] in
def panics {α : Type} : Res α → Bool
  | .error .panic => true
  | _ => false

omit [FloatOps F] in
theorem panics_iff {α : Type} (r : Res α) : panics r = true ↔ r = .error .panic := by
  cases r with
  | ok a => simp [panics]
  | error s => cases s <;> simp [panics]

omit [FloatOps F] in
theorem panics_bind {α β : Type} (r : Res α) (k : α → Res β) :
    panics (r >>= k) = (panics r || reached r fun a => panics (k a)) := by
  cases r with
  | ok a => rfl
  | error s => cases s <;> rfl

omit [FloatOps F] in
theorem panics_map {α β : Type} (r : Res α) (f : α → β) : panics (r.map f) = panics r := by
  cases r with
  | ok a => rfl
  | error s => cases s <;> rfl

omit [FloatOps F] in
theorem panics_pure {α : Type} (a : α) : panics (pure a : Res α) = false := rfl

omit [FloatOps F] in
theorem reached_false {α : Type} (r : Res α) : (reached r fun _ => false) = false := by
  cases r <;> rfl

theorem panics_compare (l r : Cell F) (op : BinOp) : panics (rowCompare l r op) = false := by
  unfold rowCompare
  split
  · split <;> rfl
  · rfl

omit [FloatOps F] in
theorem panics_boolean (c : Cell F) (msg : String) : panics (rowBoolean c msg) = false := by
  unfold rowBoolean
  split <;> rfl

omit [FloatOps F] in
theorem panics_connective (f : Bool → Bool → Bool) (msgL msgR : String) (l r : Cell F) :
    panics (rowConnective f msgL msgR l r) = false := by
  simp only [rowConnective, panics_bind, panics_boolean, panics_pure, reached_false, Bool.or_false]

theorem panics_arithmetic (l r : Cell F) (op : BinOp) :
    panics (rowArithmetic l r op) = false := by
  unfold rowArithmetic
  split
  · rename_i int _ x y _
    rw [panics_map]
    unfold Slot.tryMap2
    split
    · split <;> rfl
    · rfl
  · rfl
  · rfl

theorem panics_binop (op : BinOp) (l r : Res (Cell F)) :
    panics (rowBinop op l r) = (panics l || reached l fun _ => panics r) := by
  unfold rowBinop
  cases op <;> simp only [panics_bind, panics_connective, panics_arithmetic, panics_map,
    panics_compare, reached_false, Bool.or_false]

theorem panics_negate (c : Cell F) : panics (rowNegate c) = isLeast c := by
  obtain ⟨t, x⟩ := c
  cases t with
  | int64 =>
    by_cases hx : x.value = Int64.minValue
    · simp [rowNegate, isLeast, negI64, hx, panics, Except.map]
    · simp [rowNegate, isLeast, negI64, hx, panics, Except.map]
  | _ => rfl

theorem panics_inMask (val : Cell F) (mask : Slot Bool) (items : List (Bool × Res (Cell F)))
    (h : ∀ p ∈ items, p.1 = panics p.2) :
    panics (rowInMask val mask (items.map Prod.snd)) = inNegatesLeast val items := by
  induction items generalizing mask with
  | nil => rfl
  | cons p items ih =>
    have hp := h p List.mem_cons_self
    have hrest := fun mask => ih mask fun q hq => h q (List.mem_cons_of_mem p hq)
    simp only [List.map_cons, rowInMask, panics_bind, panics_compare, Bool.false_or, hrest,
      inNegatesLeast, hp]

omit [FloatOps F] in
theorem panics_function (clock : Int64) (name : String) (args : List (Bool × Res (Cell F)))
    (h : ∀ p ∈ args, p.1 = panics p.2) :
    panics (rowFunction clock name (args.map Prod.snd)) = functionNegatesLeast name args := by
  by_cases hname : name ∈ ["now", "time_bucket", "rate", "delta", "histogram_quantile"]
  · simp only [List.mem_cons, List.not_mem_nil, or_false] at hname
    have hscalar : ∀ types msg (c : Cell F), panics (rowScalar types msg c) = false := by
      intro types msg c
      unfold rowScalar
      split <;> rfl
    match args, h with
    | [], _ => obtain rfl | rfl | rfl | rfl | rfl := hname <;> rfl
    | [_], _ => obtain rfl | rfl | rfl | rfl | rfl := hname <;> rfl
    | (least, a) :: (least', b) :: rest, h =>
      have ha : least = panics a := h _ List.mem_cons_self
      have hb : least' = panics b := h _ (List.mem_cons_of_mem _ List.mem_cons_self)
      obtain rfl | rfl | rfl | rfl | rfl := hname
      · rfl
      all_goals simp only [rowFunction, functionNegatesLeast, List.map_cons, panics_bind, hscalar,
        reached_false, Bool.or_false, ha, hb]
  · have hrow : rowFunction clock name (args.map Prod.snd) =
        execution ("unknown function '" ++ name ++ "'") := by
      unfold rowFunction
      split <;> first | rfl | exact absurd (by simp) hname
    have hleast : functionNegatesLeast name args = false := by
      unfold functionNegatesLeast
      split <;> first | rfl | exact absurd (by simp) hname
    rw [hrow, hleast]
    rfl

theorem negatesLeastList_eq (clock : Int64) (schema : List Field) (row : List (Cell F))
    (es : List (Expr F)) : negatesLeastList clock schema row es =
      es.map fun e => (negatesLeast clock schema row e, rowExpr clock schema row e) := by
  induction es with
  | nil => rfl
  | cons e es ih => rw [negatesLeastList, ih, List.map_cons]

/-- A row stops with a panic exactly where a unary minus meets the least `i64`. -/
theorem panics_row (clock : Int64) (schema : List Field) (row : List (Cell F)) (e : Expr F) :
    panics (rowExpr clock schema row e) = negatesLeast clock schema row e := by
  induction e using Expr.tree with
  | column table name =>
    simp only [rowExpr, negatesLeast]
    split <;> rfl
  | literal lit => rfl
  | star => rfl
  | binOp op l r hl hr => rw [rowExpr, panics_binop, hl, hr, negatesLeast]
  | unaryOp op e ih =>
    cases op with
    | neg => simp only [rowExpr, negatesLeast, panics_bind, ih, panics_negate]
    | not =>
      simp only [rowExpr, negatesLeast, panics_bind, ih, rowNot, panics_boolean, panics_pure,
        reached_false, Bool.or_false]
  | isNull e ih =>
    simp only [rowExpr, negatesLeast, panics_bind, ih, panics_pure, reached_false, Bool.or_false]
  | isNotNull e ih =>
    simp only [rowExpr, negatesLeast, panics_bind, ih, panics_pure, reached_false, Bool.or_false]
  | between e low high he hlow hhigh =>
    simp only [rowExpr, rowBetween, negatesLeast, panics_bind, he, hlow, hhigh, panics_compare,
      panics_pure, reached_false, Bool.or_false]
  | inList e list he hlist =>
    have hitems := fun val => panics_inMask val (.valid false)
      (negatesLeastList clock schema row list) (by
        rw [negatesLeastList_eq]
        intro p hp
        obtain ⟨a, ha, rfl⟩ := List.mem_map.mp hp
        exact (hlist a ha).symm)
    simp only [negatesLeastList_eq, List.map_map, Function.comp_def] at hitems
    simp only [rowExpr, rowIn, negatesLeast, panics_bind, he, panics_map, rowList_eq,
      negatesLeastList_eq]
    simp only [← hitems]
  | like e pattern negated ih =>
    have hlike : ∀ c : Cell F, panics (rowLike c pattern negated) = false := by
      intro c
      unfold rowLike
      split <;> rfl
    simp only [rowExpr, negatesLeast, panics_bind, ih, hlike, reached_false, Bool.or_false]
  | function name args hargs =>
    have hitems := panics_function clock name (negatesLeastList clock schema row args) (by
      rw [negatesLeastList_eq]
      intro p hp
      obtain ⟨a, ha, rfl⟩ := List.mem_map.mp hp
      exact (hargs a ha).symm)
    simp only [negatesLeastList_eq, List.map_map, Function.comp_def] at hitems
    simp only [rowExpr, negatesLeast, rowList_eq, negatesLeastList_eq]
    exact hitems
  | timeBucket w e _ => rfl
  | rate e w _ => rfl
  | delta e w _ => rfl
  | histogramQuantile q e buckets _ => rfl
  | now => rfl
  | interval ns => rfl

end Overflow

/-! ### Cutting a batch -/

section Split
variable [FloatOps F]

/-- The law of a cut after `k` rows: neither the whole nor a part panics, the whole succeeds
exactly when both parts do, and its array is then the parts' arrays one after the other. -/
structure SplitLaw (clock : Int64) (b : RecordBatch F) (k : Nat) (e : Expr F) : Prop where
  whole : evalExpr clock b e ≠ .error .panic
  first : evalExpr clock (b.slice 0 k) e ≠ .error .panic
  second : evalExpr clock (b.slice k (b.numRows - k)) e ≠ .error .panic
  succeeds : (∃ a, evalExpr clock b e = .ok a) ↔ (∃ a, evalExpr clock (b.slice 0 k) e = .ok a) ∧
    ∃ a, evalExpr clock (b.slice k (b.numRows - k)) e = .ok a
  concat : ∀ a, evalExpr clock b e = .ok a → ∃ t xs ys, a = ⟨t, xs ++ ys⟩ ∧
    evalExpr clock (b.slice 0 k) e = .ok ⟨t, xs⟩ ∧
    evalExpr clock (b.slice k (b.numRows - k)) e = .ok ⟨t, ys⟩
  length : ∀ a, evalExpr clock b e = .ok a → a.len = b.numRows

omit [FloatOps F] in
theorem error_of_fails (cells : List (Res (Cell F))) (r : Res (ArrayRef F))
    (h : Refines .fails cells r) : ∃ s, r = .error s := by
  obtain ⟨q, hr, _⟩ | ⟨s, hr, _⟩ := h
  · exact ⟨_, hr⟩
  · exact ⟨s, hr⟩

omit [FloatOps F] in
theorem refines_no_panic (v : Verdict) (cells : List (Res (Cell F))) (r : Res (ArrayRef F))
    (h : Refines v cells r) (hv : v ≠ .call) (hcells : .error .panic ∉ cells) :
    r ≠ .error .panic := by
  intro hr
  subst hr
  cases v with
  | typed t =>
    obtain ⟨_, hok, _⟩ | ⟨s, hs, hmem⟩ := h
    · cases hok
    · cases hs
      exact hcells hmem
  | fails =>
    obtain ⟨_, hq, _⟩ | ⟨s, hs, hmem⟩ := h
    · cases hq
    · cases hs
      exact hcells hmem
  | call => exact hv rfl

omit [FloatOps F] in
theorem refines_length (v : Verdict) (cells : List (Res (Cell F))) (a : ArrayRef F)
    (h : Refines v cells (.ok a)) (hv : v ≠ .call) : a.len = cells.length := by
  cases v with
  | typed t =>
    obtain ⟨slots, hok, hcells⟩ | ⟨s, hs, _⟩ := h
    · cases hok
      rw [hcells, List.length_map]
      rfl
    · cases hs
  | fails =>
    obtain ⟨s, hs⟩ := error_of_fails cells _ h
    cases hs
  | call => exact absurd rfl hv

omit [FloatOps F] in
theorem slots_of_cells (t : DataType) (cs ds : List (Res (Cell F)))
    (slots : List (Slot (Value F t))) (h : cs ++ ds = slots.map fun s => .ok ⟨t, s⟩) :
    ∃ xs ys, slots = xs ++ ys ∧ (cs = xs.map fun s => .ok ⟨t, s⟩) ∧
      ds = ys.map fun s => .ok ⟨t, s⟩ := by
  obtain ⟨xs, ys, hslots, hxs, hys⟩ := List.map_eq_append_iff.mp h.symm
  exact ⟨xs, ys, hslots, hxs.symm, hys.symm⟩

omit [FloatOps F] in
theorem refines_ok_of_cells (t : DataType) (slots : List (Slot (Value F t)))
    (r : Res (ArrayRef F)) (h : Refines (.typed t) (slots.map fun s => .ok ⟨t, s⟩) r) :
    r = .ok ⟨t, slots⟩ := by
  obtain ⟨slots', rfl, hcells⟩ | ⟨s, _, hmem⟩ := h
  · have hinj : Function.Injective fun s : Slot (Value F t) => (.ok ⟨t, s⟩ : Res (Cell F)) := by
      intro s s' hs
      cases hs
      rfl
    rw [List.map_injective_iff.mpr hinj hcells]
  · obtain ⟨x, _, hx⟩ := List.mem_map.mp hmem
    cases hx

omit [FloatOps F] in
theorem refines_error_of_cells (v : Verdict) (cells : List (Res (Cell F))) (s : Stop)
    (r : Res (ArrayRef F)) (h : Refines v cells r) (hv : v ≠ .call) (hs : .error s ∈ cells) :
    ∃ s', r = .error s' := by
  cases v with
  | typed t =>
    obtain ⟨slots, _, hcells⟩ | ⟨s', hr, _⟩ := h
    · obtain ⟨x, _, hx⟩ := List.mem_map.mp (hcells ▸ hs)
      cases hx
    · exact ⟨s', hr⟩
  | fails => exact error_of_fails cells r h
  | call => exact absurd rfl hv

omit [FloatOps F] in
/-- Results that agree with the rows agree across a cut: both parts have their share of the
whole array, or the whole and a part fail. -/
theorem refines_split (v : Verdict) (cs ds : List (Res (Cell F))) (r r₁ r₂ : Res (ArrayRef F))
    (h : Refines v (cs ++ ds) r) (h₁ : Refines v cs r₁) (h₂ : Refines v ds r₂) (hv : v ≠ .call) :
    (∃ t xs ys, r = .ok ⟨t, xs ++ ys⟩ ∧ r₁ = .ok ⟨t, xs⟩ ∧ r₂ = .ok ⟨t, ys⟩) ∨
      (∃ s, r = .error s) ∧ ((∃ s, r₁ = .error s) ∨ ∃ s, r₂ = .error s) := by
  cases v with
  | typed t =>
    obtain ⟨slots, rfl, hcells⟩ | ⟨s, rfl, hmem⟩ := h
    · obtain ⟨xs, ys, rfl, rfl, rfl⟩ := slots_of_cells t cs ds slots hcells
      exact Or.inl ⟨t, xs, ys, rfl, refines_ok_of_cells t xs r₁ h₁, refines_ok_of_cells t ys r₂ h₂⟩
    · refine Or.inr ⟨⟨s, rfl⟩, ?_⟩
      cases List.mem_append.mp hmem with
      | inl hc => exact Or.inl (refines_error_of_cells _ cs s r₁ h₁ hv hc)
      | inr hd => exact Or.inr (refines_error_of_cells _ ds s r₂ h₂ hv hd)
  | fails => exact Or.inr ⟨error_of_fails _ r h, Or.inl (error_of_fails cs r₁ h₁)⟩
  | call => exact absurd rfl hv

omit [FloatOps F] in
theorem refines_single (v : Verdict) (s : Stop) (r : Res (ArrayRef F))
    (h : Refines v [.error s] r) (hv : v ≠ .call) : r = .error s := by
  cases v with
  | typed t =>
    obtain ⟨slots, _, hcells⟩ | ⟨s', hr, hmem⟩ := h
    · obtain ⟨x, _, hx⟩ := List.mem_map.mp (hcells ▸ List.mem_cons_self)
      cases hx
    · cases List.mem_singleton.mp hmem
      exact hr
  | fails =>
    obtain ⟨q, hr, hall⟩ | ⟨s', hr, hmem⟩ := h
    · cases hall _ List.mem_cons_self
      exact hr
    · cases List.mem_singleton.mp hmem
      exact hr
  | call => exact absurd rfl hv

omit [FloatOps F] in
theorem rows_cut (b : RecordBatch F) (k : Nat) :
    (b.slice 0 k).rows ++ (b.slice k (b.numRows - k)).rows = b.rows := by
  have hsecond : (b.rows.drop k).take (b.numRows - k) = b.rows.drop k :=
    List.take_of_length_le (by rw [List.length_drop, length_rows])
  rw [rows_slice, rows_slice, hsecond, List.drop_zero, List.take_append_drop]

/-- The law holds on a batch none of whose rows overflows, if no function reads a first row. -/
theorem splitLaw_of (clock : Int64) (b : RecordBatch F) (k : Nat) (e : Expr F)
    (hp : e.FromParser) (hcall : check b.schema e ≠ .call)
    (hrows : ∀ row ∈ b.rows, negatesLeast clock b.schema row e = false) :
    SplitLaw clock b k e := by
  have hcut := rows_cut b k
  have hno : ∀ rows : List (List (Cell F)), (∀ row ∈ rows, row ∈ b.rows) →
      .error .panic ∉ rows.map fun row => rowExpr clock b.schema row e := by
    intro rows hsub hmem
    obtain ⟨row, hrow, hpanic⟩ := List.mem_map.mp hmem
    have hleast := (panics_row clock b.schema row e).symm.trans ((panics_iff _).mpr hpanic)
    rw [hrows row (hsub row hrow)] at hleast
    cases hleast
  have h := refines_expr clock b e hp
  have h₁ : Refines (check b.schema e) _ _ := refines_expr clock (b.slice 0 k) e hp
  have h₂ : Refines (check b.schema e) _ _ :=
    refines_expr clock (b.slice k (b.numRows - k)) e hp
  have hsplit := h
  rw [← hcut, List.map_append] at hsplit
  have hboth := refines_split _ _ _ _ _ _ hsplit h₁ h₂ hcall
  refine ⟨?_, ?_, ?_, ?_, ?_, ?_⟩
  · exact refines_no_panic _ _ _ h hcall (hno b.rows fun _ hr => hr)
  · refine refines_no_panic _ _ _ h₁ hcall (hno _ fun row hr => ?_)
    exact hcut ▸ List.mem_append_left _ hr
  · refine refines_no_panic _ _ _ h₂ hcall (hno _ fun row hr => ?_)
    exact hcut ▸ List.mem_append_right _ hr
  · obtain ⟨t, xs, ys, hr, hr₁, hr₂⟩ | ⟨⟨s, hr⟩, hparts⟩ := hboth
    · exact ⟨fun _ => ⟨⟨_, hr₁⟩, ⟨_, hr₂⟩⟩, fun _ => ⟨_, hr⟩⟩
    · refine ⟨fun ⟨a, ha⟩ => ?_, fun ⟨⟨a, ha⟩, ⟨a', ha'⟩⟩ => ?_⟩
      · rw [hr] at ha
        cases ha
      · obtain ⟨s', hs'⟩ | ⟨s', hs'⟩ := hparts
        · rw [hs'] at ha
          cases ha
        · rw [hs'] at ha'
          cases ha'
  · intro a ha
    obtain ⟨t, xs, ys, hr, hr₁, hr₂⟩ | ⟨⟨s, hr⟩, _⟩ := hboth
    · rw [hr] at ha
      cases ha
      exact ⟨t, xs, ys, rfl, hr₁, hr₂⟩
    · rw [hr] at ha
      cases ha
  · intro a ha
    rw [ha] at h
    rw [refines_length _ _ a h hcall, List.length_map, length_rows]

theorem panic_of_row (clock : Int64) (schema : List Field) (row : List (Cell F)) (e : Expr F)
    (hp : e.FromParser) (hrow : RowOf schema row) (hcall : check schema e ≠ .call)
    (hleast : negatesLeast clock schema row e = true) :
    evalExpr clock (RecordBatch.ofRow schema row hrow) e = .error .panic := by
  have hpanic := (panics_iff _).mp ((panics_row clock schema row e).trans hleast)
  have h : Refines (check schema e) _ _ :=
    refines_expr clock (RecordBatch.ofRow schema row hrow) e hp
  rw [rows_ofRow, List.map_singleton] at h
  change Refines (check schema e) [rowExpr clock schema row e] _ at h
  rw [hpanic] at h
  exact refines_single _ .panic _ h hcall

theorem panic_of_call (clock : Int64) (schema : List Field) (e : Expr F)
    (hp : e.FromParser) (hcall : check schema e = .call) :
    evalExpr clock (RecordBatch.empty schema) e = .error .panic := by
  have h := refines_expr clock (RecordBatch.empty schema) e hp
  have hnil : (RecordBatch.empty schema : RecordBatch F).rows = [] :=
    List.eq_nil_of_length_eq_zero (length_rows _)
  change Refines (check schema e) _ _ at h
  rw [hcall, hnil] at h
  exact h rfl

/-- The value of a parsed expression is independent of the batch boundaries exactly when its
evaluation reaches no function of the first row and no negation that overflows. -/
theorem split_law_iff (clock : Int64) (schema : List Field) (e : Expr F) (hp : e.FromParser) :
    (∀ b : RecordBatch F, b.schema = schema → ∀ k ≤ b.numRows, SplitLaw clock b k e) ↔
      check schema e ≠ .call ∧
        ∀ row : List (Cell F), RowOf schema row → negatesLeast clock schema row e = false := by
  refine ⟨fun hlaw => ?_, fun ⟨hcall, hrows⟩ b hb k _ => ?_⟩
  · have hcall : check schema e ≠ .call := fun hc =>
      (hlaw (RecordBatch.empty schema) rfl 0 (Nat.zero_le _)).whole
        (panic_of_call clock schema e hp hc)
    refine ⟨hcall, fun row hrow => ?_⟩
    cases hleast : negatesLeast clock schema row e with
    | false => rfl
    | true =>
      exact absurd (panic_of_row clock schema row e hp hrow hcall hleast)
        (hlaw (RecordBatch.ofRow schema row hrow) rfl 0 (Nat.zero_le _)).whole
  · subst hb
    exact splitLaw_of clock b k e hp hcall fun row hr => hrows row (rowOf_rows b row hr)

end Split

/-- `body = 'ok'` over the logs has the same value however they are batched. -/
theorem split_law_body :
    (Expr.binOp .eq (.column none "body") (.literal (.str "ok")) : Expr Exact).FromParser ∧
      ∀ b : RecordBatch Exact, b.schema = logSchema → ∀ k ≤ b.numRows,
        SplitLaw 0 b k (.binOp .eq (.column none "body") (.literal (.str "ok"))) := by
  have hp : (Expr.binOp .eq (.column none "body") (.literal (.str "ok")) : Expr Exact).FromParser :=
    ⟨trivial, fun _ h => by cases h⟩
  refine ⟨hp, (split_law_iff 0 logSchema _ hp).mpr ⟨by decide, fun row _ => ?_⟩⟩
  simp only [negatesLeast, Bool.false_or, reached_false]

def twoRows : RecordBatch Exact where
  schema := [⟨"timestamp_ns", .uint64, false⟩]
  numRows := 2
  columns := [⟨.uint64, [.valid 3, .valid 4]⟩]
  typed := rfl
  sized := by simp [ArrayRef.len]
  nonNull := by simp [ArrayRef.NoNulls, Slot.isNull]

def bucketCall : Expr Exact :=
  .function "time_bucket" [.interval 60000000000, .column none "timestamp_ns"]

def deltaCall : Expr Exact :=
  .function "delta" [.column none "timestamp_ns", .interval 1000000000]

/-- A bucket of an empty part panics, and the delta of two rows is the step from one to the
other, where each row by itself has none. -/
theorem cut_changes_results :
    (bucketCall.FromParser ∧ ¬ SplitLaw 0 twoRows 0 bucketCall) ∧
      deltaCall.FromParser ∧ ¬ SplitLaw 0 twoRows 1 deltaCall := by
  refine ⟨⟨⟨trivial, trivial, trivial⟩, fun h => h.first rfl⟩,
    ⟨trivial, trivial, trivial⟩, fun h => ?_⟩
  have hwhole : evalExpr 0 twoRows deltaCall = .ok ⟨.float64, List.replicate 2
      (.valid (FloatOps.sub (FloatOps.ofInt 4) (FloatOps.ofInt 3)))⟩ := rfl
  have hpart : evalExpr 0 (twoRows.slice 0 1) deltaCall = .ok ⟨.float64,
      [.valid (FloatOps.sub (FloatOps.ofInt 3) (FloatOps.ofInt 3))]⟩ := rfl
  obtain ⟨t, xs, ys, hconcat, hxs, _⟩ := h.concat _ hwhole
  rw [hpart] at hxs
  cases hxs
  have hslots := congrArg ArrayRef.float64? hconcat
  simp only [ArrayRef.float64?, List.replicate_succ, List.singleton_append, Option.some.injEq,
    List.cons.injEq, Slot.valid.injEq] at hslots
  exact absurd hslots.1 (by decide +kernel)

end InfraLens.Query
