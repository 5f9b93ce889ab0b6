import InfraLens.Aggregate
import InfraLens.LibList
import Mathlib.Algebra.Order.Field.Rat
import Mathlib.Algebra.BigOperators.Group.List.Basic
import Mathlib.Data.Prod.Lex
import Mathlib.Order.Bounds.Basic

/-! Aggregates without group-by keys (executor/aggregate.rs), on exact numbers: what is read of a
column and what should be. -/
namespace InfraLens.Query
open LibList Schema Arrow

/-! ### Keeping the better of two -/

section Best
variable {α : Type} (lt : α → α → Bool) (ok : α → Prop)

/-- A strict order that is total on some of the values and leaves the others out. -/
structure Comparable : Prop where
  of_lt : ∀ a b, lt a b = true → ok a
  irrefl : ∀ a, lt a a = false
  trans : ∀ a b c, lt a b = true → lt b c = true → lt a c = true
  between : ∀ a b c, ok b → lt a c = true → lt b c = false → lt a b = true
  total : ∀ a b, ok a → ok b → lt a b = false → lt b a = false → a = b

/-- `m` is one of the values, and none is better. -/
def Best (m : α) (vals : List α) : Prop := m ∈ vals ∧ ∀ v ∈ vals, lt v m = false

variable {lt ok}

theorem best_cons_cons (h : Comparable lt ok) (m x v : α) (vals : List α) (hm : ok m)
    (hx : ok x) :
    Best lt m (x :: v :: vals) ↔ Best lt m ((if lt v x = true then v else x) :: vals) := by
  simp only [Best, List.mem_cons, forall_eq_or_imp]
  by_cases hlt : lt v x = true
  · rw [if_pos hlt]
    constructor
    · rintro ⟨rfl | hmem, _, hv, hvals⟩
      · rw [hlt] at hv
        cases hv
      · exact ⟨hmem, hv, hvals⟩
    · intro ⟨hmem, hv, hvals⟩
      refine ⟨Or.inr hmem, ?_, hv, hvals⟩
      by_contra hxm
      rw [h.trans v x m hlt (Bool.of_not_eq_false hxm)] at hv
      cases hv
  · have hge : lt v x = false := Bool.eq_false_of_not_eq_true hlt
    rw [if_neg hlt]
    constructor
    · rintro ⟨rfl | rfl | hmem, hxm, hv, hvals⟩
      · exact ⟨Or.inl rfl, hxm, hvals⟩
      · exact ⟨Or.inl (h.total m x hm hx hge hxm), hxm, hvals⟩
      · exact ⟨Or.inr hmem, hxm, hvals⟩
    · intro ⟨hmem, hxm, hvals⟩
      refine ⟨hmem.imp_right Or.inr, hxm, ?_, hvals⟩
      by_contra hvm
      exact hlt (h.between v x m hx (Bool.of_not_eq_false hvm) hxm)

theorem best_cons_iff (m x : α) (vals : List α) (hne : m ≠ x) (hlt : lt x m = false) :
    Best lt m (x :: vals) ↔ Best lt m vals := by
  simp [Best, hne, hlt]

theorem foldl_best_iff (h : Comparable lt ok) (m : α) (hm : ok m) (vals : List α) (x : α)
    (hx : ok x) :
    vals.foldl (fun acc v => if lt v acc = true then v else acc) x = m ↔
      Best lt m (x :: vals) := by
  induction vals generalizing x with
  | nil =>
    constructor
    · intro hxm
      change x = m at hxm
      subst hxm
      exact ⟨List.mem_cons_self, by simpa using h.irrefl x⟩
    · intro hbest
      exact (List.mem_singleton.mp hbest.1).symm
  | cons v vals ih =>
    have hstep : ok (if lt v x = true then v else x) := by
      split
      next hlt => exact h.of_lt v x hlt
      next => exact hx
    rw [best_cons_cons h m x v vals hm hx, List.foldl_cons, ih _ hstep]

theorem best_perm {vals vals' : List α} (h : vals.Perm vals') (m : α) :
    Best lt m vals ↔ Best lt m vals' := by
  simp only [Best, h.mem_iff]

/-- The best of some values stays so beside others, none of which is better than all of them. -/
theorem best_append_iff (h : Comparable lt ok) (m : α) (xs others : List α)
    (hxs : ∀ x ∈ xs, ok x) (hm : Best lt m xs) :
    Best lt m (xs ++ others) ↔ ∀ v ∈ others, ∃ x ∈ xs, lt v x = false := by
  constructor
  · intro hbest v hv
    exact ⟨m, hm.1, hbest.2 v (List.mem_append_right xs hv)⟩
  · intro hothers
    refine ⟨List.mem_append_left others hm.1, fun v hv => ?_⟩
    obtain hv | hv := List.mem_append.mp hv
    · exact hm.2 v hv
    · obtain ⟨x, hx, hvx⟩ := hothers v hv
      by_contra hvm
      have hlt : lt v x = true :=
        h.between v x m (hxs x hx) (Bool.of_not_eq_false hvm) (hm.2 x hx)
      rw [hvx] at hlt
      cases hlt

end Best

/-! ### Exact numbers -/

/-- Where a number or an infinity stands: first by its kind, then by its value. -/
def position : Exact → ℕ ×ₗ ℚ
  | .num q => toLex (1, q)
  | a => toLex (a.rank, 0)

theorem position_injective : Function.Injective position := by
  intro a b h
  cases a <;> cases b <;> simp_all [position, Exact.rank]

theorem totalCmp_lt_iff (a b : Exact) :
    Exact.totalCmp a b = .lt ↔ position a < position b := by
  cases a <;> cases b <;> rw [Exact.totalCmp, Batteries.compareOfLessAndEq_eq_lt] <;>
    simp [position, Exact.rank, Prod.Lex.toLex_lt_toLex]

theorem floatLt_iff (a b : Exact) :
    floatLt a b = true ↔ a ≠ .nan ∧ b ≠ .nan ∧ position a < position b := by
  rw [← totalCmp_lt_iff]
  change (Exact.partialCmp a b == some .lt) = true ↔ _
  rw [Exact.partialCmp]
  split
  next hnan => grind
  next hnum =>
    rw [not_or] at hnum
    simp [hnum]

theorem comparable_floatLt : Comparable (floatLt (F := Exact)) (· ≠ .nan) where
  of_lt a b h := ((floatLt_iff a b).mp h).1
  irrefl a := by
    rw [← Bool.not_eq_true, floatLt_iff]
    exact fun h => lt_irrefl _ h.2.2
  trans a b c hab hbc := by
    rw [floatLt_iff] at hab hbc ⊢
    exact ⟨hab.1, hbc.2.1, hab.2.2.trans hbc.2.2⟩
  between a b c hb hac hbc := by
    rw [← Bool.not_eq_true, floatLt_iff] at hbc
    rw [floatLt_iff] at hac ⊢
    refine ⟨hac.1, hb, lt_of_lt_of_le hac.2.2 ?_⟩
    by_contra hlt
    exact hbc ⟨hb, hac.2.1, not_le.mp hlt⟩
  total a b ha hb hab hba := by
    rw [← Bool.not_eq_true, floatLt_iff] at hab hba
    apply position_injective
    apply le_antisymm
    · exact not_lt.mp fun hlt => hba ⟨hb, ha, hlt⟩
    · exact not_lt.mp fun hlt => hab ⟨ha, hb, hlt⟩

theorem comparable_floatGt : Comparable (fun a b : Exact => floatLt b a) (· ≠ .nan) where
  of_lt a b h := ((floatLt_iff b a).mp h).2.1
  irrefl := comparable_floatLt.irrefl
  trans a b c hab hbc := comparable_floatLt.trans c b a hbc hab
  between a b c hb hac hbc := by
    rw [← Bool.not_eq_true, floatLt_iff] at hbc
    rw [floatLt_iff] at hac ⊢
    refine ⟨hb, hac.2.1, lt_of_le_of_lt ?_ hac.2.2⟩
    by_contra hlt
    exact hbc ⟨hac.1, hb, not_le.mp hlt⟩
  total a b ha hb hab hba := comparable_floatLt.total a b ha hb hba hab

theorem add_ne_num (a v : Exact) (h : ∀ q, a ≠ .num q) (q : Rat) : a.add v ≠ .num q := by
  cases a with
  | num p => exact absurd rfl (h p)
  | posInf => cases v <;> simp [Exact.add]
  | negInf => cases v <;> simp [Exact.add]
  | nan => simp [Exact.add]

theorem foldl_add_ne_num (vals : List Exact) (a : Exact) (h : ∀ q, a ≠ .num q) (q : Rat) :
    vals.foldl Exact.add a ≠ .num q := by
  induction vals generalizing a with
  | nil => exact h q
  | cons v vals ih => exact ih (a.add v) (add_ne_num a v h)

theorem foldl_add_iff (vals : List Exact) (a s : Rat) :
    vals.foldl Exact.add (.num a) = .num s ↔
      ∃ qs : List Rat, vals = qs.map Exact.num ∧ a + qs.sum = s := by
  induction vals generalizing a with
  | nil =>
    constructor
    · intro h
      exact ⟨[], rfl, by simpa using h⟩
    · rintro ⟨qs, hqs, rfl⟩
      rw [List.map_eq_nil_iff.mp hqs.symm]
      simp
  | cons v vals ih =>
    rw [List.foldl_cons]
    constructor
    · intro h
      cases v with
      | num q =>
        obtain ⟨qs, rfl, hsum⟩ := (ih (a + q)).mp h
        exact ⟨q :: qs, rfl, by rw [List.sum_cons, ← hsum, add_assoc]⟩
      | posInf => exact absurd h (foldl_add_ne_num vals _ (by simp [Exact.add]) s)
      | negInf => exact absurd h (foldl_add_ne_num vals _ (by simp [Exact.add]) s)
      | nan => exact absurd h (foldl_add_ne_num vals _ (by simp [Exact.add]) s)
    · rintro ⟨qs, hqs, rfl⟩
      obtain ⟨q, qs, rfl, rfl, rfl⟩ := List.map_eq_cons_iff.mp hqs.symm
      exact (ih (a + q)).mpr ⟨qs, rfl, by rw [List.sum_cons, add_assoc]⟩

/-! ### What a column holds and what is read of it -/

/-- A valid slot of a numeric type as an exact number; what lies under a null is no entry. -/
def number? : Cell Exact → Option Rat
  | ⟨.uint64, .valid x⟩ => some x.toNat
  | ⟨.int64, .valid x⟩ => some x.toInt
  | ⟨.int32, .valid x⟩ => some x.toInt
  | ⟨.float64, .valid (.num q)⟩ => some q
  | _ => none

/-- What lies in a slot that is no entry: under a null, or a double that is no number. -/
def spare? : Cell Exact → Option Exact
  | ⟨.uint64, .null raw⟩ => some (.num raw.toNat)
  | ⟨.int64, .null raw⟩ => some (.num raw.toInt)
  | ⟨.int32, .null raw⟩ => some (.num raw.toInt)
  | ⟨.float64, .null raw⟩ => some raw
  | ⟨.float64, .valid .posInf⟩ => some .posInf
  | ⟨.float64, .valid .negInf⟩ => some .negInf
  | ⟨.float64, .valid .nan⟩ => some .nan
  | _ => none

/-- What the slots of a column hold, over all batches. -/
def held {α : Type} (of : Cell Exact → Option α) (name : String)
    (batches : List (RecordBatch Exact)) : List α :=
  (inputRows batches).filterMap fun row => (cell? row.1 row.2 name).bind of

def entries : String → List (RecordBatch Exact) → List Rat := held number?

def spares : String → List (RecordBatch Exact) → List Exact := held spare?

def valuesRead (name : String) (batches : List (RecordBatch Exact)) : List Exact :=
  batches.flatMap fun b => ((b.column? name).map scalarValues).getD []

def numericTypes : List DataType := [.uint64, .int64, .int32, .float64]

/-- `count(*)`, or a function of a numeric column of the schema. -/
def NumericAgg (schema : List Field) (a : AggExpr Exact) : Prop :=
  (a.func = "count" ∧ a.arg = some .star) ∨
    a.func ∈ aggFns ∧ ∃ q name i f, a.arg = some (.column q name) ∧
      indexOf schema name = some i ∧ schema[i]? = some f ∧ f.dataType ∈ numericTypes

def RightCell (batches : List (RecordBatch Exact)) (a : AggExpr Exact) (c : Cell Exact) : Prop :=
  match a.arg with
  | some (.column _ name) =>
    let xs := entries name batches
    match a.func with
    | "count" => number? c = some (xs.length : Rat)
    | "sum" => xs ≠ [] → number? c = some xs.sum
    | "avg" => xs ≠ [] → number? c = some (xs.sum / xs.length)
    | "min" => xs ≠ [] → ∃ m, number? c = some m ∧ IsLeast {x | x ∈ xs} m
    | "max" => xs ≠ [] → ∃ m, number? c = some m ∧ IsGreatest {x | x ∈ xs} m
    | _ => True
  | _ => number? c = some ((inputRows batches).length : Rat)

def OneRightRow (batches : List (RecordBatch Exact)) (aggregates : List (AggExpr Exact))
    (out : RecordBatch Exact) : Prop :=
  ∃ row, out.rows = [row] ∧ List.Forall₂ (RightCell batches) aggregates row

def IsRead (schema : List Field) (name : String) : Prop :=
  ∃ i f, indexOf schema name = some i ∧ schema[i]? = some f ∧
    (f.dataType = .int64 ∨ f.dataType = .float64)

/-- The slots beside the entries do no harm. They would be counted (as an `i64`); in a column that
is read they add up to 0, keep the average, or are not beyond all entries; of a column that is not
read the sum is taken to be 0 and there is no minimum or maximum. -/
def SparesHarmless (schema : List Field) (batches : List (RecordBatch Exact)) (a : AggExpr Exact) :
    Prop :=
  match a.arg with
  | some (.column _ name) =>
    let xs := entries name batches
    let others := spares name batches
    match a.func with
    | "count" => 2 ^ 64 ∣ others.length ∧ xs.length < 2 ^ 63
    | "sum" =>
      xs ≠ [] → (IsRead schema name → ∃ us : List Rat, others = us.map .num ∧ us.sum = 0) ∧
        (¬ IsRead schema name → xs.sum = 0)
    | "avg" =>
      xs ≠ [] → (IsRead schema name → ∃ us : List Rat, others = us.map .num ∧
          us.sum * xs.length = xs.sum * us.length) ∧
        (¬ IsRead schema name → xs.sum = 0)
    | "min" =>
      xs ≠ [] → IsRead schema name ∧ ∀ v ∈ others, ∃ x ∈ xs, floatLt v (.num x) = false
    | "max" =>
      xs ≠ [] → IsRead schema name ∧ ∀ v ∈ others, ∃ x ∈ xs, floatLt (.num x) v = false
    | _ => True
  | _ => (inputRows batches).length < 2 ^ 63

/-! ### The row that is emitted -/

def scalarResult (func : String) (vals : List Exact) : Exact :=
  let acc := vals.foldl (scalarStep func) (scalarStart func)
  if func = "avg" then
    if 0 < vals.length then FloatOps.div acc (FloatOps.ofInt vals.length) else FloatOps.ofInt 0
  else acc

def scalarValue (batches : List (RecordBatch Exact)) (a : AggExpr Exact) : Exact :=
  match a.arg with
  | some (.column _ name) => scalarResult a.func (valuesRead name batches)
  | _ => .num 0

def scalarCell (batches : List (RecordBatch Exact)) (a : AggExpr Exact) : Cell Exact :=
  if a.func = "count" then ⟨.int64, .valid (Int64.ofNat (inputRows batches).length)⟩
  else ⟨.float64, .valid (scalarValue batches a)⟩

def columnOf {F : Type} (c : Cell F) : ArrayRef F := ⟨c.dataType, [c.slot]⟩

theorem scalarCell_count (batches : List (RecordBatch Exact)) (a : AggExpr Exact)
    (h : a.func = "count") :
    scalarCell batches a = ⟨.int64, .valid (Int64.ofNat (inputRows batches).length)⟩ := by
  rw [scalarCell, if_pos h]

theorem scalarCell_column (batches : List (RecordBatch Exact)) (a : AggExpr Exact)
    (h : a.func ≠ "count") (q : Option String) (name : String)
    (harg : a.arg = some (.column q name)) :
    scalarCell batches a =
      ⟨.float64, .valid (scalarResult a.func (valuesRead name batches))⟩ := by
  simp only [scalarCell, if_neg h, scalarValue, harg]

theorem length_inputRows {F : Type} (batches : List (RecordBatch F)) :
    (inputRows batches).length = (batches.map RecordBatch.numRows).sum := by
  rw [inputRows, List.length_flatMap]
  simp

theorem scalarColumns_ok (name : String) (batches : List (RecordBatch Exact))
    (h : ∀ b ∈ batches, ∃ c, b.column? name = some c) :
    scalarColumns name batches = .ok (valuesRead name batches) := by
  induction batches with
  | nil => rfl
  | cons b bs ih =>
    obtain ⟨c, hc⟩ := h b List.mem_cons_self
    have hrest := ih fun b' hb' => h b' (List.mem_cons_of_mem b hb')
    simp only [scalarColumns, hc, hrest, valuesRead, List.flatMap_cons, Option.map_some,
      Option.getD_some]
    rfl

theorem column?_of_schema {F : Type} (b : RecordBatch F) (name : String) (i : Nat) (f : Field)
    (hi : indexOf b.schema name = some i) (hf : b.schema[i]? = some f) :
    ∃ c, b.column? name = some c ∧ c.dataType = f.dataType := by
  have htypes : (b.columns.map ArrayRef.dataType)[i]? = some f.dataType := by
    rw [b.typed, List.getElem?_map, hf]
    rfl
  rw [List.getElem?_map, Option.map_eq_some_iff] at htypes
  obtain ⟨c, hc, htype⟩ := htypes
  refine ⟨c, ?_, htype⟩
  rw [RecordBatch.column?, hi]
  exact hc

theorem scalarColumn_ok (schema : List Field) (batches : List (RecordBatch Exact))
    (hschema : ∀ b ∈ batches, b.schema = schema) (a : AggExpr Exact) (ha : NumericAgg schema a) :
    scalarColumn batches a = .ok (columnOf (scalarCell batches a)) := by
  by_cases hcount : a.func = "count"
  · rw [scalarColumn, if_pos hcount, scalarCell_count batches a hcount, length_inputRows]
    rfl
  obtain ⟨hfunc, _⟩ | ⟨hfunc, q, name, i, f, harg, hi, hf, _⟩ := ha
  · exact absurd hfunc hcount
  have hcols : ∀ b ∈ batches, ∃ c, b.column? name = some c := by
    intro b hb
    rw [← hschema b hb] at hi hf
    obtain ⟨c, hc, _⟩ := column?_of_schema b name i f hi hf
    exact ⟨c, hc⟩
  have hmem : a.func ∈ ["sum", "avg", "min", "max"] := by
    simpa [aggFns, hcount] using hfunc
  rw [scalarColumn, if_neg hcount, if_pos hmem, harg, computeScalarAgg,
    scalarColumns_ok name batches hcols, scalarCell_column batches a hcount q name harg]
  rfl

theorem rowsOf_cells {F : Type} (cells : List (Cell F)) :
    rowsOf 1 (cells.map columnOf) = [cells] := by
  induction cells with
  | nil => rfl
  | cons c cells ih =>
    rw [List.map_cons, rowsOf, ih]
    rfl

theorem tryNew_cells {F : Type} (schema : List Field) (cells : List (Cell F)) (hne : cells ≠ [])
    (htypes : cells.map Cell.dataType = schema.map Field.dataType)
    (hvalid : ∀ c ∈ cells, c.slot.isNull = false) :
    ∃ out, tryNew schema (cells.map columnOf) = .ok out ∧ out.rows = [cells] := by
  cases cells with
  | nil => exact absurd rfl hne
  | cons c cells =>
    have htyped : ((c :: cells).map columnOf).map ArrayRef.dataType =
        schema.map Field.dataType := by
      rw [← htypes, List.map_map]
      rfl
    have hsized : ∀ a ∈ (c :: cells).map columnOf, a.len = (columnOf c).len := by
      intro a ha
      obtain ⟨c', _, rfl⟩ := List.mem_map.mp ha
      rfl
    have hnull : ∀ p ∈ schema.zip ((c :: cells).map columnOf), p.1.nullable = false →
        p.2.NoNulls := by
      intro p hp _
      obtain ⟨c', hc', heq⟩ := List.mem_map.mp (List.of_mem_zip hp).2
      rw [← heq]
      intro s hs
      rw [List.mem_singleton.mp hs]
      exact hvalid c' hc'
    refine ⟨⟨schema, _, _, htyped, hsized, hnull⟩, dif_pos ⟨htyped, hsized, hnull⟩, ?_⟩
    exact rowsOf_cells (c :: cells)

theorem scalarCell_valid (batches : List (RecordBatch Exact)) (a : AggExpr Exact) :
    (scalarCell batches a).slot.isNull = false := by
  by_cases h : a.func = "count"
  · rw [scalarCell_count batches a h]
    rfl
  · rw [scalarCell, if_neg h]
    rfl

theorem scalarCell_type (batches : List (RecordBatch Exact)) (a : AggExpr Exact) :
    (scalarCell batches a).dataType = if a.func = "count" then .int64 else .float64 := by
  by_cases h : a.func = "count"
  · rw [scalarCell_count batches a h, if_pos h]
  · rw [scalarCell, if_neg h, if_neg h]

theorem compute_ungrouped (schema : List Field) (batches : List (RecordBatch Exact))
    (aggregates : List (AggExpr Exact)) (hschema : ∀ b ∈ batches, b.schema = schema)
    (haggs : ∀ a ∈ aggregates, NumericAgg schema a) (hbatches : batches ≠ [])
    (hne : aggregates ≠ []) :
    ∃ out, compute [] aggregates batches = .ok out ∧
      out.rows = [aggregates.map (scalarCell batches)] := by
  have hcols : aggregates.mapM (scalarColumn batches) =
      .ok ((aggregates.map (scalarCell batches)).map columnOf) := by
    rw [List.map_map]
    exact mapM_ok _ _ _ fun a ha => scalarColumn_ok schema batches hschema a (haggs a ha)
  have htypes : (aggregates.map (scalarCell batches)).map Cell.dataType =
      (outSchema [] aggregates).map Field.dataType := by
    rw [outSchema, List.map_map, List.map_nil, List.nil_append, List.map_map]
    exact List.map_congr_left fun a _ => scalarCell_type batches a
  obtain ⟨out, hout, hrows⟩ := tryNew_cells (outSchema [] aggregates)
    (aggregates.map (scalarCell batches)) (by simpa using hne) htypes
    (by
      intro c hc
      obtain ⟨a, _, rfl⟩ := List.mem_map.mp hc
      exact scalarCell_valid batches a)
  refine ⟨out, ?_, hrows⟩
  rw [compute, List.isEmpty_eq_false_iff.mpr hbatches, hcols]
  exact hout

/-! ### When the values are right -/

theorem number?_float (v : Exact) (q : Rat) :
    number? ⟨.float64, .valid v⟩ = some q ↔ v = .num q := by
  cases v <;> simp [number?]

theorem number?_int (n : Int64) (k : Nat) :
    number? ⟨.int64, .valid n⟩ = some (k : Rat) ↔ n.toInt = k := by
  rw [number?, Option.some_inj]
  exact_mod_cast Iff.rfl

theorem div_num_iff (a : Exact) (n s : Rat) (hn : 0 < n) :
    a.div (.num n) = .num s ↔ ∃ q, a = .num q ∧ q / n = s := by
  cases a with
  | num q => simp [Exact.div, hn.ne']
  | posInf => simp [Exact.div, hn.ne', Exact.sign, hn, Exact.ofSign]
  | negInf => simp [Exact.div, hn.ne', Exact.sign, hn, Exact.ofSign]
  | nan => simp [Exact.div]

theorem sum_num_iff (vals : List Exact) (s : Rat) :
    scalarResult "sum" vals = .num s ↔ ∃ qs : List Rat, vals = qs.map .num ∧ qs.sum = s := by
  have hfold : scalarResult "sum" vals = vals.foldl Exact.add (.num 0) := by
    rw [scalarResult, if_neg (by decide)]
    rfl
  rw [hfold, foldl_add_iff]
  simp only [zero_add]

theorem avg_num_iff (vals : List Exact) (s : Rat) :
    scalarResult "avg" vals = .num s ↔
      ∃ qs : List Rat, vals = qs.map .num ∧ qs.sum / qs.length = s := by
  by_cases hlen : 0 < vals.length
  · have hdiv : scalarResult "avg" vals =
        (vals.foldl Exact.add (.num 0)).div (.num vals.length) := by
      rw [scalarResult, if_pos rfl, if_pos hlen]
      rfl
    rw [hdiv, div_num_iff _ _ _ (by exact_mod_cast hlen)]
    constructor
    · rintro ⟨q, hq, hs⟩
      obtain ⟨qs, rfl, hsum⟩ := (foldl_add_iff vals 0 q).mp hq
      rw [zero_add] at hsum
      exact ⟨qs, rfl, by rw [hsum, ← hs, List.length_map]⟩
    · rintro ⟨qs, rfl, hs⟩
      exact ⟨qs.sum, (foldl_add_iff _ 0 _).mpr ⟨qs, rfl, zero_add _⟩, by rw [List.length_map, hs]⟩
  · have hnil : vals = [] := by
      simpa using hlen
    subst hnil
    have hzero : scalarResult "avg" [] = .num 0 := rfl
    rw [hzero]
    constructor
    · intro h
      exact ⟨[], rfl, by simpa using h⟩
    · rintro ⟨qs, hqs, rfl⟩
      rw [List.map_eq_nil_iff.mp hqs.symm]
      simp

theorem min_num_iff (vals : List Exact) (m : Rat) :
    scalarResult "min" vals = .num m ↔ Best floatLt (.num m) vals := by
  have hfold : scalarResult "min" vals =
      vals.foldl (fun acc v => if floatLt v acc = true then v else acc) .posInf := by
    rw [scalarResult, if_neg (by decide)]
    rfl
  rw [hfold, foldl_best_iff comparable_floatLt _ (by simp) vals _ (by simp),
    best_cons_iff _ _ _ (by simp) rfl]

theorem max_num_iff (vals : List Exact) (m : Rat) :
    scalarResult "max" vals = .num m ↔ Best (fun a b => floatLt b a) (.num m) vals := by
  have hfold : scalarResult "max" vals =
      vals.foldl (fun acc v => if floatLt acc v = true then v else acc) .negInf := by
    rw [scalarResult, if_neg (by decide)]
    rfl
  rw [hfold, foldl_best_iff comparable_floatGt _ (by simp) vals _ (by simp),
    best_cons_iff _ _ _ (by simp) rfl]

/-! ### Entries and the other slots -/

theorem filterMap_rows {α : Type} (of : Cell Exact → Option α) (b : RecordBatch Exact)
    (name : String) (c : ArrayRef Exact) (h : b.column? name = some c) :
    (b.rows.map fun row => (b.schema, row)).filterMap
      (fun row => (cell? row.1 row.2 name).bind of) = c.cells.filterMap of := by
  have hcells := congrArg (List.filterMap fun x : Option (Cell Exact) => x.bind of)
    (map_cell? b name c h)
  rw [List.filterMap_map, List.filterMap_map] at hcells
  rw [List.filterMap_map]
  exact hcells

theorem held_cons {α : Type} (of : Cell Exact → Option α) (name : String) (b : RecordBatch Exact)
    (bs : List (RecordBatch Exact)) (c : ArrayRef Exact) (h : b.column? name = some c) :
    held of name (b :: bs) = c.cells.filterMap of ++ held of name bs := by
  rw [held, inputRows, List.flatMap_cons, List.filterMap_append, filterMap_rows of b name c h]
  rfl

theorem number?_or_spare? (c : Cell Exact) (h : c.dataType ∈ numericTypes) :
    (number? c).isSome = !(spare? c).isSome := by
  obtain ⟨t, slot⟩ := c
  simp only [numericTypes, List.mem_cons, List.not_mem_nil, or_false] at h
  obtain rfl | rfl | rfl | rfl := h
  · cases slot <;> rfl
  · cases slot <;> rfl
  · cases slot <;> rfl
  · obtain x | raw := slot
    · cases x <;> rfl
    · rfl

theorem length_cells_eq (cells : List (Cell Exact)) (h : ∀ c ∈ cells, c.dataType ∈ numericTypes) :
    (cells.filterMap number?).length + (cells.filterMap spare?).length = cells.length := by
  induction cells with
  | nil => rfl
  | cons c cells ih =>
    have hrest := ih fun c' hc' => h c' (List.mem_cons_of_mem c hc')
    have hone := number?_or_spare? c (h c List.mem_cons_self)
    rw [List.filterMap_cons, List.filterMap_cons, List.length_cons]
    cases hn : number? c <;> cases hs : spare? c <;> simp [hn, hs] at hone ⊢ <;> omega

theorem scalarCell?_cases (c : Cell Exact) (h : c.dataType = .int64 ∨ c.dataType = .float64) :
    (∃ q, number? c = some q ∧ spare? c = none ∧ scalarCell? c = some (.num q)) ∨
      ∃ v, number? c = none ∧ spare? c = some v ∧ scalarCell? c = some v := by
  obtain ⟨t, slot⟩ := c
  obtain rfl | rfl := h
  · cases slot with
    | valid x => exact Or.inl ⟨_, rfl, rfl, rfl⟩
    | null raw => exact Or.inr ⟨_, rfl, rfl, rfl⟩
  · cases slot with
    | valid x =>
      cases x with
      | num q => exact Or.inl ⟨q, rfl, rfl, rfl⟩
      | posInf => exact Or.inr ⟨_, rfl, rfl, rfl⟩
      | negInf => exact Or.inr ⟨_, rfl, rfl, rfl⟩
      | nan => exact Or.inr ⟨_, rfl, rfl, rfl⟩
    | null raw => exact Or.inr ⟨_, rfl, rfl, rfl⟩

theorem filterMap_scalarCell_perm (cells : List (Cell Exact))
    (h : ∀ c ∈ cells, c.dataType = .int64 ∨ c.dataType = .float64) :
    (cells.filterMap scalarCell?).Perm
      ((cells.filterMap number?).map .num ++ cells.filterMap spare?) := by
  induction cells with
  | nil => exact List.Perm.nil
  | cons c cells ih =>
    have hrest := ih fun c' hc' => h c' (List.mem_cons_of_mem c hc')
    rw [List.filterMap_cons, List.filterMap_cons, List.filterMap_cons]
    obtain ⟨q, hn, hs, hread⟩ | ⟨v, hn, hs, hread⟩ :=
      scalarCell?_cases c (h c List.mem_cons_self)
    · rw [hn, hs, hread]
      exact hrest.cons _
    · rw [hn, hs, hread]
      exact (hrest.cons _).trans List.perm_middle.symm

theorem dataType_of_mem_cells {F : Type} (c : ArrayRef F) (cell : Cell F) (h : cell ∈ c.cells) :
    cell.dataType = c.dataType := by
  obtain ⟨s, _, rfl⟩ := List.mem_map.mp h
  rfl

section Columns
variable {schema : List Field} {name : String} {i : Nat} {f : Field}
  (hi : indexOf schema name = some i) (hf : schema[i]? = some f)
include hi hf

theorem isRead_iff : IsRead schema name ↔ f.dataType = .int64 ∨ f.dataType = .float64 := by
  constructor
  · rintro ⟨i', f', hi', hf', htype⟩
    obtain rfl : i = i' := Option.some.inj (hi.symm.trans hi')
    obtain rfl : f = f' := Option.some.inj (hf.symm.trans hf')
    exact htype
  · exact fun htype => ⟨i, f, hi, hf, htype⟩

theorem length_entries_add (batches : List (RecordBatch Exact))
    (hschema : ∀ b ∈ batches, b.schema = schema) (htype : f.dataType ∈ numericTypes) :
    (entries name batches).length + (spares name batches).length = (inputRows batches).length := by
  induction batches with
  | nil => rfl
  | cons b bs ih =>
    have hrest := ih fun b' hb' => hschema b' (List.mem_cons_of_mem b hb')
    obtain rfl := hschema b List.mem_cons_self
    obtain ⟨c, hc, hct⟩ := column?_of_schema b name i f hi hf
    have hcells := length_cells_eq c.cells fun cell hcell => by
      rwa [dataType_of_mem_cells c cell hcell, hct]
    have hlen : c.cells.length = b.numRows := by
      obtain ⟨j, _, hj⟩ := Option.bind_eq_some_iff.mp hc
      rw [ArrayRef.cells, List.length_map]
      exact b.sized c (List.mem_of_getElem? hj)
    rw [length_inputRows] at hrest ⊢
    rw [entries, spares, held_cons _ name b bs c hc, held_cons _ name b bs c hc, List.map_cons,
      List.sum_cons, List.length_append, List.length_append, ← hrest, ← hlen, ← hcells, entries,
      spares]
    omega

theorem valuesRead_perm (batches : List (RecordBatch Exact))
    (hschema : ∀ b ∈ batches, b.schema = schema) (hread : IsRead schema name) :
    (valuesRead name batches).Perm ((entries name batches).map .num ++ spares name batches) := by
  have htype := (isRead_iff hi hf).mp hread
  induction batches with
  | nil => exact List.Perm.nil
  | cons b bs ih =>
    have hrest := ih fun b' hb' => hschema b' (List.mem_cons_of_mem b hb')
    obtain rfl := hschema b List.mem_cons_self
    obtain ⟨c, hc, hct⟩ := column?_of_schema b name i f hi hf
    have hcells := filterMap_scalarCell_perm c.cells fun cell hcell => by
      rwa [dataType_of_mem_cells c cell hcell, hct]
    have hvals : valuesRead name (b :: bs) =
        c.cells.filterMap scalarCell? ++ valuesRead name bs := by
      rw [valuesRead, List.flatMap_cons, hc, ← scalarValues_eq c]
      rfl
    rw [hvals, entries, spares, held_cons _ name b bs c hc, held_cons _ name b bs c hc,
      List.map_append]
    refine (hcells.append hrest).trans ?_
    rw [List.append_assoc, List.append_assoc]
    refine List.Perm.append_left _ ?_
    rw [← List.append_assoc, ← List.append_assoc]
    exact List.perm_append_comm.append_right _

theorem valuesRead_eq_nil (batches : List (RecordBatch Exact))
    (hschema : ∀ b ∈ batches, b.schema = schema) (hread : ¬ IsRead schema name) :
    valuesRead name batches = [] := by
  rw [isRead_iff hi hf] at hread
  rw [valuesRead, List.flatMap_eq_nil_iff]
  intro b hb
  obtain rfl := hschema b hb
  obtain ⟨⟨t, slots⟩, hc, hct⟩ := column?_of_schema b name i f hi hf
  rw [hc, Option.map_some, Option.getD_some]
  rw [← hct] at hread
  cases t <;> first | rfl | exact absurd (by simp) hread

end Columns

theorem numbers_iff {vals others : List Exact} {xs : List Rat}
    (h : vals.Perm (xs.map .num ++ others)) (P : Rat → Nat → Prop) :
    (∃ qs : List Rat, vals = qs.map .num ∧ P qs.sum qs.length) ↔
      ∃ us : List Rat, others = us.map .num ∧ P (xs.sum + us.sum) (xs.length + us.length) := by
  have hinj : Function.Injective Exact.num := fun _ _ => Exact.num.inj
  have hsame : ∀ qs us : List Rat, vals = qs.map .num → others = us.map .num →
      (P qs.sum qs.length ↔ P (xs.sum + us.sum) (xs.length + us.length)) := by
    intro qs us hqs hus
    rw [hqs, hus, ← List.map_append] at h
    have hperm : qs.Perm (xs ++ us) := (List.map_perm_map_iff hinj).mp h
    rw [hperm.sum_eq, hperm.length_eq, List.sum_append, List.length_append]
  have hrange : ∀ l : List Exact, (∀ v ∈ l, v ∈ Set.range Exact.num) →
      ∃ qs : List Rat, l = qs.map .num := by
    intro l hl
    have hmem : l ∈ Set.range (List.map Exact.num) := by rwa [Set.range_list_map]
    obtain ⟨qs, hqs⟩ := hmem
    exact ⟨qs, hqs.symm⟩
  constructor
  · rintro ⟨qs, hqs, hP⟩
    obtain ⟨us, hus⟩ := hrange others fun v hv => by
      have hmem := h.mem_iff.mpr (List.mem_append_right _ hv)
      rw [hqs] at hmem
      obtain ⟨q, _, hq⟩ := List.mem_map.mp hmem
      exact ⟨q, hq⟩
    exact ⟨us, hus, (hsame qs us hqs hus).mp hP⟩
  · rintro ⟨us, hus, hP⟩
    obtain ⟨qs, hqs⟩ := hrange vals fun v hv => by
      have hmem := h.mem_iff.mp hv
      rw [hus, ← List.map_append] at hmem
      obtain ⟨q, _, hq⟩ := List.mem_map.mp hmem
      exact ⟨q, hq⟩
    exact ⟨qs, hqs, (hsame qs us hqs hus).mpr hP⟩

theorem numbers_nil_iff (P : Rat → Nat → Prop) :
    (∃ qs : List Rat, ([] : List Exact) = qs.map .num ∧ P qs.sum qs.length) ↔ P 0 0 := by
  constructor
  · rintro ⟨qs, hqs, hP⟩
    rw [List.map_eq_nil_iff.mp hqs.symm] at hP
    exact hP
  · exact fun hP => ⟨[], rfl, hP⟩

theorem average_kept_iff (s u : Rat) (n k : Nat) (hn : 0 < n) :
    (s + u) / ((n + k : Nat) : Rat) = s / n ↔ u * n = s * k := by
  have hn' : (n : Rat) ≠ 0 := by exact_mod_cast hn.ne'
  have hk' : ((n + k : Nat) : Rat) ≠ 0 := by exact_mod_cast (by omega : n + k ≠ 0)
  rw [div_eq_div_iff hk' hn', Nat.cast_add, add_mul, mul_add]
  exact add_right_inj _

/-- A count of all the rows is right for some of them only if it wraps around. -/
theorem toInt_ofNat_add_iff (n k : Nat) :
    (Int64.ofNat (n + k)).toInt = n ↔ 2 ^ 64 ∣ k ∧ n < 2 ^ 63 := by
  rw [Int64.toInt_ofNat', Int.bmod_def, Int64.size]
  omega

theorem floatLt_num (a b : Rat) : floatLt (Exact.num a) (Exact.num b) = false ↔ b ≤ a := by
  rw [← Bool.not_eq_true, floatLt_iff]
  simp [position, Prod.Lex.toLex_lt_toLex]

theorem best_num_iff (xs : List Rat) (m : Rat) :
    Best floatLt (Exact.num m) (xs.map Exact.num) ↔ IsLeast {x | x ∈ xs} m := by
  simp [Best, floatLt_num, IsLeast, lowerBounds]

theorem best_num_iff' (xs : List Rat) (m : Rat) :
    Best (fun a b => floatLt b a) (Exact.num m) (xs.map Exact.num) ↔
      IsGreatest {x | x ∈ xs} m := by
  simp [Best, floatLt_num, IsGreatest, upperBounds]

theorem least_read_iff {vals others : List Exact} {xs : List Rat}
    (h : vals.Perm (xs.map .num ++ others)) (hne : xs ≠ []) :
    (∃ m, IsLeast {x | x ∈ xs} m ∧ Best floatLt (.num m) vals) ↔
      ∀ v ∈ others, ∃ x ∈ xs, floatLt v (.num x) = false := by
  have hbest : ∀ m, IsLeast {x | x ∈ xs} m → (Best floatLt (.num m) vals ↔
      ∀ v ∈ others, ∃ x ∈ xs, floatLt v (.num x) = false) := by
    intro m hm
    rw [best_perm h,
      best_append_iff comparable_floatLt _ _ others (by simp) ((best_num_iff xs m).mpr hm)]
    simp
  obtain ⟨m, hm⟩ := Option.ne_none_iff_exists'.mp (mt List.min?_eq_none_iff.mp hne)
  have hleast : IsLeast {x | x ∈ xs} m := List.min?_eq_some_iff.mp hm
  constructor
  · rintro ⟨m', hm', hread⟩
    exact (hbest m' hm').mp hread
  · exact fun hothers => ⟨m, hleast, (hbest m hleast).mpr hothers⟩

theorem greatest_read_iff {vals others : List Exact} {xs : List Rat}
    (h : vals.Perm (xs.map .num ++ others)) (hne : xs ≠ []) :
    (∃ m, IsGreatest {x | x ∈ xs} m ∧ Best (fun a b => floatLt b a) (.num m) vals) ↔
      ∀ v ∈ others, ∃ x ∈ xs, floatLt (.num x) v = false := by
  have hbest : ∀ m, IsGreatest {x | x ∈ xs} m →
      (Best (fun a b => floatLt b a) (.num m) vals ↔
        ∀ v ∈ others, ∃ x ∈ xs, floatLt (.num x) v = false) := by
    intro m hm
    rw [best_perm h,
      best_append_iff comparable_floatGt _ _ others (by simp) ((best_num_iff' xs m).mpr hm)]
    simp
  obtain ⟨m, hm⟩ := Option.ne_none_iff_exists'.mp (mt List.max?_eq_none_iff.mp hne)
  have hgreatest : IsGreatest {x | x ∈ xs} m := List.max?_eq_some_iff.mp hm
  constructor
  · rintro ⟨m', hm', hread⟩
    exact (hbest m' hm').mp hread
  · exact fun hothers => ⟨m, hgreatest, (hbest m hgreatest).mpr hothers⟩

/-! ### When the row is right -/

theorem rightCell_iff (schema : List Field) (batches : List (RecordBatch Exact))
    (hschema : ∀ b ∈ batches, b.schema = schema) (a : AggExpr Exact) (ha : NumericAgg schema a) :
    RightCell batches a (scalarCell batches a) ↔ SparesHarmless schema batches a := by
  obtain ⟨func, arg, aliasName⟩ := a
  obtain ⟨hfunc, harg⟩ | ⟨hfunc, q, name, i, f, harg, hi, hf, htype⟩ := ha
  · cases hfunc
    cases harg
    refine (number?_int _ _).trans ((toInt_ofNat_add_iff _ 0).trans ?_)
    exact and_iff_right (dvd_zero _)
  cases harg
  have hlen := length_entries_add hi hf batches hschema htype
  have hperm := valuesRead_perm hi hf batches hschema
  have hnil := valuesRead_eq_nil hi hf batches hschema
  simp only [aggFns, List.mem_cons, List.not_mem_nil, or_false] at hfunc
  obtain rfl | rfl | rfl | rfl | rfl := hfunc
  · refine (number?_int _ _).trans ?_
    rw [← hlen]
    exact toInt_ofNat_add_iff _ _
  · refine imp_congr_right fun hne => (number?_float _ _).trans ((sum_num_iff _ _).trans ?_)
    by_cases hread : IsRead schema name
    · rw [numbers_iff (hperm hread) fun s _ => s = (entries name batches).sum]
      simp [hread]
    · rw [hnil hread, numbers_nil_iff fun s _ => s = (entries name batches).sum]
      simp [hread, eq_comm]
  · refine imp_congr_right fun hne => (number?_float _ _).trans ((avg_num_iff _ _).trans ?_)
    have hpos : 0 < (entries name batches).length := List.length_pos_of_ne_nil hne
    by_cases hread : IsRead schema name
    · rw [numbers_iff (hperm hread) fun s n => s / n = _]
      simp only [average_kept_iff _ _ _ _ hpos, hread, true_imp_iff, not_true_eq_false,
        false_imp_iff, and_true]
    · rw [hnil hread, numbers_nil_iff fun s n => s / (n : Rat) = _]
      rw [zero_div, eq_comm, div_eq_zero_iff, or_iff_left (by exact_mod_cast hpos.ne')]
      simp [hread]
  · refine imp_congr_right fun hne => Iff.trans (exists_congr fun m => ?_) (?_ :
      (∃ m, IsLeast {x | x ∈ entries name batches} m ∧
        Best floatLt (.num m) (valuesRead name batches)) ↔ _)
    · rw [and_comm]
      exact and_congr_right fun _ => (number?_float _ _).trans (min_num_iff _ _)
    · by_cases hread : IsRead schema name
      · rw [least_read_iff (hperm hread) hne, and_iff_right hread]
      · simp [hnil hread, Best, hread]
  · refine imp_congr_right fun hne => Iff.trans (exists_congr fun m => ?_) (?_ :
      (∃ m, IsGreatest {x | x ∈ entries name batches} m ∧
        Best (fun a b => floatLt b a) (.num m) (valuesRead name batches)) ↔ _)
    · rw [and_comm]
      exact and_congr_right fun _ => (number?_float _ _).trans (max_num_iff _ _)
    · by_cases hread : IsRead schema name
      · rw [greatest_read_iff (hperm hread) hne, and_iff_right hread]
      · simp [hnil hread, Best, hread]

/-- Without group-by keys the operator emits one right row exactly when there is a batch and an
aggregate, and the slots beside the entries harm none of the aggregates. -/
theorem ungrouped_iff (schema : List Field) (batches : List (RecordBatch Exact))
    (aggregates : List (AggExpr Exact)) (hschema : ∀ b ∈ batches, b.schema = schema)
    (haggs : ∀ a ∈ aggregates, NumericAgg schema a) :
    (∃ out, compute [] aggregates batches = .ok out ∧ OneRightRow batches aggregates out) ↔
      batches ≠ [] ∧ aggregates ≠ [] ∧ ∀ a ∈ aggregates, SparesHarmless schema batches a := by
  by_cases hbatches : batches = []
  · subst hbatches
    constructor
    · rintro ⟨out, hout, row, hrow, _⟩
      cases hout
      have hlen := congrArg List.length hrow
      rw [length_rows] at hlen
      cases hlen
    · intro h
      exact absurd rfl h.1
  by_cases hne : aggregates = []
  · subst hne
    constructor
    · rintro ⟨out, hout, _⟩
      rw [compute, List.isEmpty_eq_false_iff.mpr hbatches] at hout
      cases hout
    · intro h
      exact absurd rfl h.2.1
  obtain ⟨out, hout, hrows⟩ :=
    compute_ungrouped schema batches aggregates hschema haggs hbatches hne
  have hright : OneRightRow batches aggregates out ↔
      ∀ a ∈ aggregates, SparesHarmless schema batches a := by
    have hall : ∀ a ∈ aggregates,
        (RightCell batches a (scalarCell batches a) ↔ SparesHarmless schema batches a) :=
      fun a ha => rightCell_iff schema batches hschema a (haggs a ha)
    rw [← forall₂_congr hall]
    simp [OneRightRow, hrows, List.forall₂_map_right_iff, List.forall₂_same]
  rw [hout]
  simp [hright, hbatches, hne]

def intBatch (slots : List (Slot Int64)) : RecordBatch Exact where
  schema := [⟨"value_int", .int64, true⟩]
  numRows := slots.length
  columns := [⟨.int64, slots⟩]
  typed := rfl
  sized := by simp [ArrayRef.len]
  nonNull := by simp

/-- `SELECT count(*), sum(value_int), min(value_int)` over -5 and a null, under which there is 0,
and a second batch with 3. -/
theorem ungrouped_iff_two_batches :
    ∃ out, compute [] [⟨"count", some .star, "n"⟩, ⟨"sum", some (.column none "value_int"), "s"⟩,
          ⟨"min", some (.column none "value_int"), "m"⟩]
        [intBatch [.valid (-5), .null 0], intBatch [.valid 3]] = .ok out ∧
      OneRightRow [intBatch [.valid (-5), .null 0], intBatch [.valid 3]]
        [⟨"count", some .star, "n"⟩, ⟨"sum", some (.column none "value_int"), "s"⟩,
          ⟨"min", some (.column none "value_int"), "m"⟩] out := by
  have hread : IsRead (intBatch []).schema "value_int" := ⟨0, _, rfl, rfl, Or.inl rfl⟩
  refine (ungrouped_iff (intBatch []).schema _ _ ?_ ?_).mpr ⟨by simp, by simp, ?_⟩
  · intro b hb
    simp only [List.mem_cons, List.not_mem_nil, or_false] at hb
    obtain rfl | rfl := hb <;> rfl
  · intro a ha
    simp only [List.mem_cons, List.not_mem_nil, or_false] at ha
    obtain rfl | rfl | rfl := ha
    · exact Or.inl ⟨rfl, rfl⟩
    · exact Or.inr ⟨by decide, none, "value_int", 0, _, rfl, rfl, rfl, by decide⟩
    · exact Or.inr ⟨by decide, none, "value_int", 0, _, rfl, rfl, rfl, by decide⟩
  · intro a ha
    simp only [List.mem_cons, List.not_mem_nil, or_false] at ha
    obtain rfl | rfl | rfl := ha
    · show 3 < 2 ^ 63
      decide
    · exact fun _ => ⟨fun _ => ⟨[0], rfl, by simp⟩, fun h => absurd hread h⟩
    · refine fun _ => ⟨hread, fun v hv => ⟨-5, List.mem_cons_self, ?_⟩⟩
      obtain rfl : v = .num 0 := List.mem_singleton.mp hv
      decide

/-- Without a batch there is no row. A `UInt64` column has the sum 0, and a null is counted and
read as what lies under it. -/
theorem ungrouped_reads_nulls :
    (compute [] [⟨"count", some .star, "count"⟩] ([] : List (RecordBatch Exact))).map
        RecordBatch.rows = .ok [] ∧
      ((compute [] [⟨"sum", some (.column none "timestamp_ns"), "sum"⟩] [oneTimestamp]).map
          RecordBatch.rows = .ok [[⟨.float64, .valid (.num 0)⟩]] ∧
        entries "timestamp_ns" [oneTimestamp] = [7]) ∧
      (compute [] [⟨"count", some (.column none "value_int"), "count"⟩,
          ⟨"min", some (.column none "value_int"), "min"⟩]
          [intBatch [.valid 5, .null 0]]).map RecordBatch.rows =
        .ok [[⟨.int64, .valid 2⟩, ⟨.float64, .valid (.num 0)⟩]] ∧
      entries "value_int" [intBatch [.valid 5, .null 0]] = [5] := by
  refine ⟨rfl, ⟨rfl, rfl⟩, rfl, rfl⟩

end InfraLens.Query
