import InfraLens.Batches
import InfraLens.Kernels
import InfraLens.Limits

/-! Statements over one table in terms of the stored rows alone: what a scan keeps is decided row
by row, and neither the aggregates nor the sort see where one batch ends and the next begins. -/
namespace InfraLens.Query
open Schema Arrow Model LibPull Tables LibExcept

variable {F : Type}

/-- Batches of one schema, none of them empty. -/
def Proper (fields : List Field) (bs : List (RecordBatch F)) : Prop :=
  ∀ b ∈ bs, b.schema = fields ∧ 0 < b.numRows

theorem proper_cons (fields : List Field) (b : RecordBatch F) (bs : List (RecordBatch F)) :
    Proper fields (b :: bs) ↔ (b.schema = fields ∧ 0 < b.numRows) ∧ Proper fields bs :=
  List.forall_mem_cons

theorem proper_append (fields : List Field) (bs cs : List (RecordBatch F)) :
    Proper fields (bs ++ cs) ↔ Proper fields bs ∧ Proper fields cs :=
  List.forall_mem_append

theorem eq_nil_of_proper (fields : List Field) (bs : List (RecordBatch F)) (h : Proper fields bs)
    (hrows : resultRows bs = []) : bs = [] := by
  cases bs with
  | nil => rfl
  | cons b bs =>
    have hlen := congrArg List.length hrows
    rw [length_resultRows_cons, List.length_nil] at hlen
    have hpos := (h b List.mem_cons_self).2
    omega

/-! ### What a scan keeps -/

section Scan
variable [FloatOps F] (clock : Int64) (fields : List Field)

def Filterable (p : Expr F) (row : List (Cell F)) : Prop :=
  ∃ x, rowExpr clock fields row p = .ok ⟨.boolean, x⟩

theorem not_filterable_of_error (p : Expr F) (rows : List (List (Cell F))) (s : Stop)
    (h : .error s ∈ rows.map fun row => rowExpr clock fields row p) :
    ¬ ∀ row ∈ rows, Filterable clock fields p row := by
  intro hall
  obtain ⟨row, hmem, hcell⟩ := List.mem_map.mp h
  obtain ⟨x, hx⟩ := hall row hmem
  rw [hcell] at hx
  cases hx

theorem not_filterable_of_type (p : Expr F) (rows : List (List (Cell F))) (t : DataType)
    (ht : t ≠ .boolean) (slots : List (Slot (Value F t))) (hne : rows ≠ [])
    (h : (rows.map fun row => rowExpr clock fields row p) = slots.map fun s => .ok ⟨t, s⟩) :
    ¬ ∀ row ∈ rows, Filterable clock fields p row := by
  intro hall
  obtain ⟨row, hmem⟩ := List.exists_mem_of_ne_nil rows hne
  obtain ⟨x, hx⟩ := hall row hmem
  have hcell := List.mem_map_of_mem (f := fun row => rowExpr clock fields row p) hmem
  rw [h] at hcell
  obtain ⟨y, -, hy⟩ := List.mem_map.mp hcell
  rw [hx] at hy
  cases hy
  exact ht rfl

/-- A batch has a mask exactly when the predicate has a truth value in each of its rows. -/
theorem evalFilter_cases (b : RecordBatch F) (hpos : 0 < b.numRows) (p : Expr F)
    (hp : RowWise b.schema p) :
    (∃ mask, evalFilter clock b p = .ok mask ∧ mask.length = b.numRows) ∧
        (∀ row ∈ b.rows, Filterable clock b.schema p row) ∨
      (∃ s, evalFilter clock b p = .error s) ∧
        ¬ ∀ row ∈ b.rows, Filterable clock b.schema p row := by
  have href := refines_expr clock b p hp.1
  have hne : b.rows ≠ [] := by
    rw [← length_rows b] at hpos
    exact List.ne_nil_of_length_pos hpos
  unfold evalFilter
  cases hcheck : check b.schema p with
  | call => exact absurd hcheck hp.2
  | fails =>
    rw [hcheck] at href
    obtain ⟨q, hr, hall⟩ | ⟨s, hr, hmem⟩ := href
    · obtain ⟨row, hmem⟩ := List.exists_mem_of_ne_nil b.rows hne
      have hcell := List.mem_map_of_mem (f := fun row => rowExpr clock b.schema row p) hmem
      refine Or.inr ⟨⟨_, by rw [hr]; rfl⟩, not_filterable_of_error clock _ p _ (.error q) ?_⟩
      rw [← hall _ hcell]
      exact hcell
    · exact Or.inr ⟨⟨_, by rw [hr]; rfl⟩, not_filterable_of_error clock _ p _ s hmem⟩
  | typed t =>
    rw [hcheck] at href
    obtain ⟨slots, hr, hcells⟩ | ⟨s, hr, hmem⟩ := href
    · by_cases ht : t = .boolean
      · subst ht
        refine Or.inl ⟨⟨slots, by rw [hr]; rfl, ?_⟩, ?_⟩
        · have hlen := congrArg List.length hcells
          rw [List.length_map, List.length_map, length_rows] at hlen
          exact hlen.symm
        · intro row hmem
          have hcell := List.mem_map_of_mem (f := fun row => rowExpr clock b.schema row p) hmem
          rw [hcells] at hcell
          obtain ⟨x, -, hx⟩ := List.mem_map.mp hcell
          exact ⟨x, hx.symm⟩
      · refine Or.inr ⟨⟨_, by rw [hr, ok_bind, requireBoolean_of_ne t ht]; rfl⟩, ?_⟩
        exact not_filterable_of_type clock _ p _ t ht slots hne hcells
    · exact Or.inr ⟨⟨_, by rw [hr]; rfl⟩, not_filterable_of_error clock _ p _ s hmem⟩

theorem selected_cases (b : RecordBatch F) (hpos : 0 < b.numRows) (p : Expr F)
    (hp : RowWise b.schema p) :
    (∃ o, selected clock p b = .ok o) ∧ (∀ row ∈ b.rows, Filterable clock b.schema p row) ∨
      (∃ s, selected clock p b = .error s) ∧
        ¬ ∀ row ∈ b.rows, Filterable clock b.schema p row := by
  obtain ⟨⟨mask, hmask, hlen⟩, hall⟩ | ⟨⟨s, hs⟩, hnot⟩ := evalFilter_cases clock b hpos p hp
  · have hfits : ∀ c ∈ b.columns, mask.length ≤ c.len := by
      intro c hc
      rw [hlen, b.sized c hc]
    obtain ⟨c, hc⟩ : ∃ c, filterRecordBatch b mask = .ok c := ⟨_, dif_pos hfits⟩
    refine Or.inl ⟨⟨nonEmpty c, ?_⟩, hall⟩
    rw [selected, applyPredicate, hmask, ok_bind, hc]
    rfl
  · refine Or.inr ⟨⟨s, ?_⟩, hnot⟩
    rw [selected, applyPredicate, hs]
    rfl

def scanRows (pred : Option (Expr F)) (rows : List (List (Cell F))) : List (List (Cell F)) :=
  match pred with
  | some p => rows.filter fun row => accepts (rowExpr clock fields row p)
  | none => rows

def Scannable (pred : Option (Expr F)) (rows : List (List (Cell F))) : Prop :=
  ∀ p ∈ pred, ∀ row ∈ rows, Filterable clock fields p row

/-- A scan succeeds exactly when its predicate has a truth value in every stored row, and keeps
those in which it is true. -/
theorem loadAll_cases (pred : Option (Expr F)) (hpred : ∀ p ∈ pred, RowWise fields p)
    (bs : List (RecordBatch F)) (hbs : Proper fields bs) :
    (∃ out, loadAll clock pred (bs.map .ok) = .ok out ∧ Proper fields out ∧
        resultRows out = scanRows clock fields pred (resultRows bs)) ∧
        Scannable clock fields pred (resultRows bs) ∨
      (∃ s, loadAll clock pred (bs.map .ok) = .error s) ∧
        ¬ Scannable clock fields pred (resultRows bs) := by
  cases pred with
  | none =>
    refine Or.inl ⟨⟨bs, ?_, hbs, rfl⟩, fun p hp => by cases hp⟩
    clear hbs
    induction bs with
    | nil => rfl
    | cons b bs ih =>
      rw [List.map_cons, loadAll, readBatch, ok_bind]
      simp only [ih]
      rfl
  | some p =>
    have hp := hpred p rfl
    induction bs with
    | nil => exact Or.inl ⟨⟨[], rfl, by simp [Proper], rfl⟩, fun q _ row hrow => by cases hrow⟩
    | cons b bs ih =>
      obtain ⟨⟨hschema, hpos⟩, hrest⟩ := (proper_cons fields b bs).mp hbs
      have hsplit : Scannable clock fields (some p) (resultRows (b :: bs)) ↔
          (∀ row ∈ b.rows, Filterable clock fields p row) ∧
            Scannable clock fields (some p) (resultRows bs) := by
        simp only [Scannable, Option.mem_some_iff, forall_eq', resultRows, List.flatMap_cons,
          List.forall_mem_append]
      obtain ⟨⟨o, ho⟩, hall⟩ | ⟨⟨s, hs⟩, hnot⟩ :=
          selected_cases clock b hpos p (by rw [hschema]; exact hp)
      · obtain ⟨hrows, hout⟩ := selected_rows clock b p o (by rw [hschema]; exact hp) ho
        rw [hschema] at hall hrows
        have hload : loadAll clock (some p) ((b :: bs).map .ok) =
            (loadAll clock (some p) (bs.map .ok)).map (o.toList ++ ·) := by
          rw [List.map_cons, loadAll, readBatch, ok_bind]
          simp only [ho, ok_bind]
          rfl
        rw [hload, hsplit]
        obtain ⟨⟨out, hok, hproper, hsame⟩, hscan⟩ | ⟨⟨s, hs⟩, hnot⟩ := ih hrest
        · refine Or.inl ⟨⟨o.toList ++ out, by rw [hok]; rfl, ?_, ?_⟩, hall, hscan⟩
          · refine (proper_append fields _ _).mpr ⟨?_, hproper⟩
            intro c hc
            obtain ⟨hcs, hcpos⟩ := hout c (Option.mem_toList.mp hc)
            exact ⟨hcs.trans hschema, hcpos⟩
          · have hopt : resultRows o.toList = optRows o := by
              cases o <;> simp [resultRows, optRows]
            rw [resultRows, List.flatMap_append]
            change resultRows o.toList ++ resultRows out = _
            rw [hopt, hrows, hsame, scanRows, scanRows, ← List.filter_append]
            rfl
        · exact Or.inr ⟨⟨s, by rw [hs]; rfl⟩, fun h => hnot h.2⟩
      · refine Or.inr ⟨⟨s, ?_⟩, fun h => hnot (hschema ▸ (hsplit.mp h).1)⟩
        rw [List.map_cons, loadAll, readBatch, ok_bind]
        simp only [hs]
        rfl

end Scan

/-! ### One batch of many -/

section Concat

theorem concatArrays_typed (t : DataType) (as : List (ArrayRef F)) (hne : as ≠ [])
    (h : ∀ a ∈ as, a.dataType = t) : ∃ a, concatArrays as = .ok a ∧ a.dataType = t := by
  induction as with
  | nil => exact absurd rfl hne
  | cons c cs ih =>
    have hc := h c List.mem_cons_self
    cases cs with
    | nil => exact ⟨c, rfl, hc⟩
    | cons d ds =>
      obtain ⟨rest, hrest, htype⟩ := ih (List.cons_ne_nil d ds)
        fun a ha => h a (List.mem_cons_of_mem c ha)
      have hsame : rest.dataType = c.dataType := htype.trans hc.symm
      refine ⟨⟨c.dataType, c.slots ++ hsame ▸ rest.slots⟩, ?_, hc⟩
      rw [concatArrays]
      · rw [hrest, ok_bind, dif_pos hsame]
      · simp

theorem columnAt_schema (fields : List Field) (b : RecordBatch F) (hb : b.schema = fields)
    (i : Nat) (hi : i < fields.length) :
    ∃ c, columnAt i b = .ok c ∧ c.dataType = fields[i].dataType ∧
      (fields[i], c) ∈ b.schema.zip b.columns := by
  have hlen : b.columns.length = fields.length := by
    rw [← hb, ← List.length_map (f := ArrayRef.dataType), b.typed, List.length_map]
  have hcol : i < b.columns.length := by omega
  refine ⟨b.columns[i], by rw [columnAt, List.getElem?_eq_getElem hcol], ?_, ?_⟩
  · have htyped := congrArg (·[i]?) b.typed
    simp only [List.getElem?_map, List.getElem?_eq_getElem hcol, hb,
      List.getElem?_eq_getElem hi, Option.map_some] at htyped
    exact Option.some.inj htyped
  · rw [hb, List.mem_iff_getElem]
    refine ⟨i, by rw [List.length_zip]; omega, ?_⟩
    rw [List.getElem_zip]

theorem concatColumn_schema (fields : List Field) (bs : List (RecordBatch F)) (hne : bs ≠ [])
    (hbs : ∀ b ∈ bs, b.schema = fields) (i : Nat) (hi : i < fields.length) :
    ∃ a, (do concatArrays (← bs.mapM (columnAt i))) = .ok a ∧
      a.dataType = fields[i].dataType := by
  obtain ⟨as, hok, hcols⟩ | ⟨s, -, hmem⟩ := mapM_cases (columnAt i) bs
  · rw [hok, ok_bind]
    apply concatArrays_typed
    · intro hnil
      rw [hnil, List.map_nil, List.map_eq_nil_iff] at hcols
      exact hne hcols
    · intro a ha
      have hmem : Except.ok a ∈ bs.map (columnAt i) := by
        rw [hcols]
        exact List.mem_map_of_mem ha
      obtain ⟨b, hb, hcol⟩ := List.mem_map.mp hmem
      obtain ⟨c, hc, htype, -⟩ := columnAt_schema fields b (hbs b hb) i hi
      rw [hcol] at hc
      cases hc
      exact htype
  · obtain ⟨b, hb, hcol⟩ := List.mem_map.mp hmem
    obtain ⟨c, hc, -, -⟩ := columnAt_schema fields b (hbs b hb) i hi
    rw [hcol] at hc
    cases hc

theorem noNulls_of_cells (a : ArrayRef F) (h : ∀ c ∈ a.cells, c.slot.isNull = false) :
    a.NoNulls := by
  intro x hx
  exact h ⟨a.dataType, x⟩ (List.mem_map_of_mem hx)

theorem cellsAt_schema (fields : List Field) (bs : List (RecordBatch F))
    (hbs : ∀ b ∈ bs, b.schema = fields) (i : Nat) (hi : i < fields.length) :
    (bs.flatMap fun b => cellsAt b i).length = (bs.map RecordBatch.numRows).sum ∧
      (fields[i].nullable = false →
        ∀ c ∈ bs.flatMap fun b => cellsAt b i, c.slot.isNull = false) := by
  have hcolumn (b : RecordBatch F) (hb : b ∈ bs) : ∃ c, cellsAt b i = c.cells ∧
      c ∈ b.columns ∧ (fields[i], c) ∈ b.schema.zip b.columns := by
    obtain ⟨c, hc, -, hzip⟩ := columnAt_schema fields b (hbs b hb) i hi
    exact ⟨c, (columnAt_ok i b c hc).2.symm, (List.of_mem_zip hzip).2, hzip⟩
  constructor
  · rw [List.length_flatMap]
    congr 1
    apply List.map_congr_left
    intro b hb
    obtain ⟨c, hcells, hc, -⟩ := hcolumn b hb
    rw [hcells, ArrayRef.length_cells, b.sized c hc]
  · intro hnull c hc
    obtain ⟨b, hb, hmem⟩ := List.mem_flatMap.mp hc
    obtain ⟨a, hcells, -, hzip⟩ := hcolumn b hb
    rw [hcells] at hmem
    obtain ⟨x, hx, rfl⟩ := List.mem_map.mp hmem
    exact b.nonNull _ hzip hnull x hx

theorem concatBatches_schema (fields : List Field) (bs : List (RecordBatch F)) (hne : bs ≠ [])
    (hbs : ∀ b ∈ bs, b.schema = fields) :
    ∃ c, concatBatches fields bs = .ok c ∧ c.schema = fields ∧ c.rows = resultRows bs := by
  obtain ⟨c, hc⟩ : ∃ c, concatBatches fields bs = .ok c := by
    unfold concatBatches
    split
    · exact ⟨_, rfl⟩
    next hfields =>
      have hpos : 0 < fields.length := List.length_pos_iff.mpr (by simpa using hfields)
      obtain ⟨cols, hok, hcols⟩ | ⟨s, -, hmem⟩ := mapM_cases
        (fun i => do concatArrays (← bs.mapM (columnAt i))) (List.range fields.length)
      · have hlen : cols.length = fields.length := by
          have h := congrArg List.length hcols
          rw [List.length_map, List.length_map, List.length_range] at h
          exact h.symm
        have hcells := (concatColumns_ok fields.length bs cols hcols).2
        have hat (i : Nat) (hi : i < fields.length) :
            (do concatArrays (← bs.mapM (columnAt i))) = .ok cols[i] ∧
              cols[i].cells = bs.flatMap fun b => cellsAt b i := by
          have hget := congrArg (·[i]?) hcols
          have hget' := congrArg (·[i]?) hcells
          simp only [List.getElem?_map, List.getElem?_range hi, Option.map_some,
            List.getElem?_eq_getElem (show i < cols.length by omega)] at hget hget'
          exact ⟨Option.some.inj hget, Option.some.inj hget'⟩
        have hsized (i : Nat) (hi : i < fields.length) :
            cols[i].len = (bs.map RecordBatch.numRows).sum := by
          rw [← ArrayRef.length_cells, (hat i hi).2]
          exact (cellsAt_schema fields bs hbs i hi).1
        obtain ⟨first, rest, rfl⟩ := List.exists_cons_of_length_pos (hlen ▸ hpos)
        rw [hok, ok_bind]
        refine ⟨_, dif_pos ⟨?_, ?_, ?_⟩⟩
        · apply List.ext_getElem
          · rw [List.length_map, List.length_map, hlen]
          · intro i hi hi'
            rw [List.length_map] at hi'
            obtain ⟨a, ha, htype⟩ := concatColumn_schema fields bs hne hbs i hi'
            rw [(hat i hi').1] at ha
            cases ha
            rw [List.getElem_map, List.getElem_map]
            exact htype
        · intro a ha
          obtain ⟨i, hi, rfl⟩ := List.getElem_of_mem ha
          rw [hsized i (hlen ▸ hi)]
          exact (hsized 0 hpos).symm
        · intro p hp hnull
          obtain ⟨i, hi, rfl⟩ := List.getElem_of_mem hp
          rw [List.length_zip] at hi
          have hi' : i < fields.length := by omega
          rw [List.getElem_zip] at hnull ⊢
          apply noNulls_of_cells
          rw [(hat i hi').2]
          exact (cellsAt_schema fields bs hbs i hi').2 hnull
      · obtain ⟨i, hi, hcol⟩ := List.mem_map.mp hmem
        obtain ⟨a, ha, -⟩ := concatColumn_schema fields bs hne hbs i (List.mem_range.mp hi)
        rw [hcol] at ha
        cases ha
  obtain ⟨hschema, hwidth, hrows⟩ := concatBatches_ok fields bs c hc
  refine ⟨c, hc, hschema, ?_⟩
  rw [hrows, List.map_congr_left (g := id), List.map_id]
  intro row hrow
  obtain ⟨b, hb, hmem⟩ := List.mem_flatMap.mp hrow
  have hlen := congrArg List.length (rowOf_rows b row hmem).typed
  rw [List.length_map, List.length_map, hbs b hb] at hlen
  exact List.take_of_length_le (Nat.le_of_eq hlen)

end Concat

/-! ### Aggregates -/

section Aggregates
variable [FloatOps F]

omit [FloatOps F] in
theorem column?_schema (fields : List Field) (b : RecordBatch F) (hb : b.schema = fields)
    (name : String) :
    (b.column? name).isSome = (indexOf fields name).isSome := by
  rw [RecordBatch.column?, hb]
  cases hi : indexOf fields name with
  | none => rfl
  | some i =>
    have hlt : i < fields.length := by
      unfold indexOf at hi
      exact (List.findIdx?_eq_some_iff_getElem.mp hi).1
    obtain ⟨c, hc, -, -⟩ := columnAt_schema fields b hb i hlt
    rw [Option.bind_some, List.getElem?_eq_getElem (columnAt_ok i b c hc).1]
    rfl

def rowScalars (fields : List Field) (name : String) (rows : List (List (Cell F))) : List F :=
  rows.filterMap fun row => (cell? fields row name).bind scalarCell?

theorem scalarColumns_rows (fields : List Field) (name : String) (bs : List (RecordBatch F))
    (hbs : ∀ b ∈ bs, b.schema = fields) (hname : (indexOf fields name).isSome = true) :
    scalarColumns name bs = .ok (rowScalars fields name (resultRows bs)) := by
  induction bs with
  | nil => rfl
  | cons b bs ih =>
    have hb := hbs b List.mem_cons_self
    obtain ⟨c, hc⟩ := Option.isSome_iff_exists.mp ((column?_schema fields b hb name).trans hname)
    have hcells := map_cell? b name c hc
    rw [hb] at hcells
    have hvalues : scalarValues c = rowScalars fields name b.rows := by
      have hread := congrArg (List.filterMap fun x : Option (Cell F) => x.bind scalarCell?) hcells
      rw [List.filterMap_map, List.filterMap_map] at hread
      rw [scalarValues_eq]
      exact hread.symm
    simp only [scalarColumns, hc, ih fun b' hb' => hbs b' (List.mem_cons_of_mem b hb'), hvalues]
    simp [rowScalars, resultRows, Except.map]

theorem scalarColumns_missing (fields : List Field) (name : String) (bs : List (RecordBatch F))
    (hne : bs ≠ []) (hbs : ∀ b ∈ bs, b.schema = fields)
    (hname : (indexOf fields name).isSome = false) :
    scalarColumns name bs = execution ("column '" ++ name ++ "' not found") := by
  obtain ⟨b, bs, rfl⟩ := List.exists_cons_of_ne_nil hne
  have hnone := (column?_schema fields b (hbs b List.mem_cons_self) name).trans hname
  rw [scalarColumns, Option.isSome_eq_false_iff.mp hnone |> Option.isNone_iff_eq_none.mp]

theorem scalarColumn_rows (fields : List Field) (bs bs' : List (RecordBatch F))
    (hne : bs ≠ []) (hne' : bs' ≠ []) (hbs : ∀ b ∈ bs, b.schema = fields)
    (hbs' : ∀ b ∈ bs', b.schema = fields) (hrows : resultRows bs = resultRows bs')
    (agg : AggExpr F) : scalarColumn bs agg = scalarColumn bs' agg := by
  have hcount : (bs.map RecordBatch.numRows).sum = (bs'.map RecordBatch.numRows).sum := by
    rw [← length_resultRows, hrows, length_resultRows]
  have hcolumns (name : String) : scalarColumns name bs = scalarColumns name bs' := by
    cases hname : (indexOf fields name).isSome with
    | true =>
      rw [scalarColumns_rows fields name bs hbs hname, hrows,
        scalarColumns_rows fields name bs' hbs' hname]
    | false =>
      rw [scalarColumns_missing fields name bs hne hbs hname,
        scalarColumns_missing fields name bs' hne' hbs' hname]
  have hscalar : computeScalarAgg bs agg.func agg.arg = computeScalarAgg bs' agg.func agg.arg := by
    cases agg.arg with
    | none => rfl
    | some e =>
      cases e with
      | column table name => rw [computeScalarAgg, computeScalarAgg, hcolumns]
      | _ => rfl
  rw [scalarColumn, scalarColumn, hcount, hscalar]

theorem compute_rows (fields : List Field) (keys : List (Expr F)) (aggregates : List (AggExpr F))
    (bs bs' : List (RecordBatch F)) (hbs : Proper fields bs) (hbs' : Proper fields bs')
    (hrows : resultRows bs = resultRows bs') :
    compute keys aggregates bs = compute keys aggregates bs' ∨
      (∃ s, compute keys aggregates bs = .error s) ∧
        ∃ s, compute keys aggregates bs' = .error s := by
  by_cases hnil : bs = []
  · have hnil' : bs' = [] := eq_nil_of_proper fields bs' hbs' (by rw [← hrows, hnil]; rfl)
    exact Or.inl (by rw [hnil, hnil'])
  · have hnil' : bs' ≠ [] := by
      intro he
      exact hnil (eq_nil_of_proper fields bs hbs (by rw [hrows, he]; rfl))
    cases keys with
    | nil =>
      refine Or.inl ?_
      have hcols : aggregates.mapM (scalarColumn bs) = aggregates.mapM (scalarColumn bs') := by
        congr 1
        funext agg
        exact scalarColumn_rows fields bs bs' hnil hnil' (fun b hb => (hbs b hb).1)
          (fun b hb => (hbs' b hb).1) hrows agg
      rw [compute, compute, List.isEmpty_eq_false_iff.mpr hnil,
        List.isEmpty_eq_false_iff.mpr hnil', hcols]
      rfl
    | cons key keys =>
      have hfails (cs : List (RecordBatch F)) (hcs : cs ≠ []) :
          ∃ s, compute (key :: keys) aggregates cs = .error s := by
        cases hc : compute (key :: keys) aggregates cs with
        | error s => exact ⟨s, rfl⟩
        | ok out => exact absurd hc (compute_groups_fails key keys aggregates cs hcs out)
      exact Or.inr ⟨hfails bs hnil, hfails bs' hnil'⟩

end Aggregates

/-! ### Statements -/

section Statements
variable [FloatOps F]

omit [FloatOps F] in
def SameRows : Res (List (RecordBatch F)) → Res (List (RecordBatch F)) → Prop
  | .ok bs, .ok bs' => resultRows bs = resultRows bs'
  | .error _, .error _ => True
  | _, _ => False

omit [FloatOps F] in
theorem sameRows_refl (r : Res (List (RecordBatch F))) : SameRows r r := by
  cases r with
  | ok bs => exact rfl
  | error s => trivial

omit [FloatOps F] in
theorem sameRows_bind (r r' : Res (List (RecordBatch F)))
    (f f' : List (RecordBatch F) → Res (List (RecordBatch F)))
    (h : (∃ bs bs', r = .ok bs ∧ r' = .ok bs' ∧ SameRows (f bs) (f' bs')) ∨
      (∃ s, r = .error s) ∧ ∃ s, r' = .error s) : SameRows (r >>= f) (r' >>= f') := by
  obtain ⟨bs, bs', rfl, rfl, hsame⟩ | ⟨⟨s, rfl⟩, s', rfl⟩ := h
  · exact hsame
  · trivial

omit [FloatOps F] in
theorem collect_blocking (f : List (RecordBatch F) → Res (List (RecordBatch F)))
    (child : Pull Stop (RecordBatch F)) : (blocking f child).collect = child.collect >>= f := by
  unfold blocking
  cases child.collect >>= f with
  | ok bs => exact Pull.collect_ofList bs
  | error s => rfl

omit [FloatOps F] in
/-- The sort concatenates first, so it cannot tell the batches apart. -/
theorem materialize_rows (lexsort : List (SortColumn F) → Res (List Nat))
    (keys : List (Expr F × Bool)) (fields : List Field) (bs bs' : List (RecordBatch F))
    (hbs : Proper fields bs) (hbs' : Proper fields bs') (hrows : resultRows bs = resultRows bs') :
    materialize lexsort keys bs = materialize lexsort keys bs' := by
  by_cases hnil : bs = []
  · have hnil' : bs' = [] := eq_nil_of_proper fields bs' hbs' (by rw [← hrows, hnil]; rfl)
    rw [hnil, hnil']
  · have hnil' : bs' ≠ [] := by
      intro he
      exact hnil (eq_nil_of_proper fields bs hbs (by rw [hrows, he]; rfl))
    obtain ⟨c, hc, hschema, hcrows⟩ := concatBatches_schema fields bs hnil fun b hb => (hbs b hb).1
    obtain ⟨c', hc', hschema', hcrows'⟩ :=
      concatBatches_schema fields bs' hnil' fun b hb => (hbs' b hb).1
    have hsame : c = c' :=
      eq_of_rows c c' (hschema.trans hschema'.symm) (by rw [hcrows, hrows, hcrows'])
    obtain ⟨b, bs, rfl⟩ := List.exists_cons_of_ne_nil hnil
    obtain ⟨b', bs', rfl⟩ := List.exists_cons_of_ne_nil hnil'
    rw [materialize, materialize, (hbs b List.mem_cons_self).1, (hbs' b' List.mem_cons_self).1,
      hc, hc', hsame]

/-- The operators over the scan return the same rows however the scan's rows are cut. -/
theorem upper_rows (env : Env F) (sel : SelectStatement F) (fields : List Field)
    (bs bs' : List (RecordBatch F)) (hbs : Proper fields bs) (hbs' : Proper fields bs')
    (hrows : resultRows bs = resultRows bs') :
    SameRows (upper env sel (Pull.ofList bs)).collect
      (upper env sel (Pull.ofList bs')).collect := by
  unfold upper groupedPart
  cases hgrouped : sel.grouped with
  | false =>
    simp only [Bool.false_eq_true, if_false]
    split
    · rw [Pull.collect_ofList, Pull.collect_ofList]
      exact hrows
    · rw [sortOperator, collect_blocking, collect_blocking, Pull.collect_ofList,
        Pull.collect_ofList, ok_bind, ok_bind, materialize_rows env.lexsort _ fields bs bs' hbs hbs'
          hrows]
      exact sameRows_refl _
  | true =>
    simp only [if_true]
    obtain hsame | ⟨⟨s, hs⟩, s', hs'⟩ := compute_rows fields sel.groupBy
      (extractAggregates sel.projections) bs bs' hbs hbs' hrows
    · have hagg : aggregateOperator sel.groupBy (extractAggregates sel.projections)
          (Pull.ofList bs) = aggregateOperator sel.groupBy (extractAggregates sel.projections)
            (Pull.ofList bs') := by
        simp only [aggregateOperator, blocking, Pull.collect_ofList, ok_bind, hsame]
      rw [hagg]
      exact sameRows_refl _
    · have hfail (cs : List (RecordBatch F)) (s : Stop) (hcs : compute sel.groupBy
          (extractAggregates sel.projections) cs = .error s) :
          aggregateOperator sel.groupBy (extractAggregates sel.projections) (Pull.ofList cs) =
            .fail s := by
        simp only [aggregateOperator, blocking, Pull.collect_ofList, ok_bind, hcs]
        rfl
      rw [hfail bs s hs, hfail bs' s' hs']
      cases sel.having <;> split <;> trivial

/-- LIMIT without OFFSET takes the first rows of the scan, as no operator waits for all rows. -/
theorem limited_rows (env : Env F) (sel : SelectStatement F) (hstream : sel.Streaming)
    (n : UInt64) (hlimit : sel.limit = some n) (hskip : sel.skip = 0)
    (bs : List (RecordBatch F)) :
    ∃ out,
      (limited sel (upper env sel (Pull.ofList (retainLimit sel.limit bs)))).collect = .ok out ∧
      resultRows out = (resultRows bs).take n.toNat := by
  rw [upper_streaming env sel hstream, limited, hlimit]
  obtain ⟨out, hout, hrows⟩ := limitOperator_rows (Pull.ofList (retainLimit (some n) bs)) n.toNat
    sel.skip _ (Pull.collect_ofList _)
  refine ⟨out, hout, ?_⟩
  have hfront := resultRows_front _ _ (retain_front n.toNat 0 bs)
  have henough := retain_enough n.toNat 0 bs
  rw [hrows, retainLimit, (take_drop_front _ _ sel.skip n.toNat hfront).mpr, hskip, List.drop_zero]
  omega

end Statements

/-! ### Written tables -/

/-- The files written for a signal, partition by partition: zone maps and batches. -/
structure Dataset (F : Type) (sig : SignalType) where
  entries : List (UInt64 × List (ZoneMap × RecordBatch F))
  nodup : (entries.map Prod.fst).Nodup
  typed : ∀ e ∈ entries, ∀ f ∈ e.2, f.2.schema = schema sig

def Dataset.get {sig : SignalType} (w : Dataset F sig) (key : UInt64) : List (RecordBatch F) :=
  ((w.entries.find? fun e => e.1 = key).map fun e => e.2.map Prod.snd).getD []

def Dataset.paths {sig : SignalType} (w : Dataset F sig) (partitionFilter : List UInt64) :
    List (RecordBatch F) :=
  (if partitionFilter.isEmpty then w.entries.map Prod.fst else partitionFilter).flatMap w.get

theorem mem_paths {sig : SignalType} (w : Dataset F sig) (partitionFilter : List UInt64)
    (b : RecordBatch F) (h : b ∈ w.paths partitionFilter) : b.schema = schema sig := by
  obtain ⟨key, -, hget⟩ := List.mem_flatMap.mp h
  unfold Dataset.get at hget
  cases he : w.entries.find? (fun e => e.1 = key) with
  | none =>
    rw [he] at hget
    cases hget
  | some e =>
    rw [he] at hget
    obtain ⟨f, hf, rfl⟩ := List.mem_map.mp hget
    exact w.typed e (List.mem_of_find?_eq_some he) f hf

section Reading
variable [ParquetReader F]

/-- A file as a scan reads it, `batchSize` rows at a time. -/
def readFile (batchSize : Nat) (f : ZoneMap × RecordBatch F) : SSTableFile F :=
  ⟨f.1, (readParquet batchSize f.2).map .ok⟩

def Dataset.read {sig : SignalType} (w : Dataset F sig) (batchSize : Nat) : Partitions F where
  entries := w.entries.map fun e => (e.1, e.2.map (readFile batchSize))
  nodup := by
    rw [List.map_map]
    exact w.nodup

theorem get_read {sig : SignalType} (w : Dataset F sig) (batchSize : Nat) (key : UInt64) :
    ((w.read batchSize).get key).flatMap SSTableFile.batches =
      ((w.get key).flatMap (readParquet batchSize)).map .ok := by
  have hfind : (w.read batchSize).entries.find? (fun e => e.1 = key) =
      (w.entries.find? fun e => e.1 = key).map fun e => (e.1, e.2.map (readFile batchSize)) := by
    rw [Dataset.read, List.find?_map]
    rfl
  rw [Partitions.get, hfind, Dataset.get]
  cases w.entries.find? fun e => e.1 = key with
  | none => rfl
  | some e => simp [readFile, List.flatMap_map, List.map_flatMap]

theorem sstablePaths_read {sig : SignalType} (w : Dataset F sig) (batchSize : Nat)
    (partitionFilter : List UInt64) :
    ((w.read batchSize).sstablePaths partitionFilter).flatMap SSTableFile.batches =
      ((w.paths partitionFilter).flatMap (readParquet batchSize)).map .ok := by
  have hkeys : (w.read batchSize).entries.map Prod.fst = w.entries.map Prod.fst := by
    rw [Dataset.read, List.map_map]
    rfl
  rw [Partitions.sstablePaths, Dataset.paths, hkeys, List.flatMap_assoc, List.flatMap_assoc,
    List.map_flatMap]
  simp only [get_read]

theorem proper_read {sig : SignalType} (w : Dataset F sig) (batchSize : Nat) (h : 0 < batchSize)
    (partitionFilter : List UInt64) :
    Proper (schema sig) ((w.paths partitionFilter).flatMap (readParquet batchSize)) := by
  intro c hc
  obtain ⟨b, hb, hmem⟩ := List.mem_flatMap.mp hc
  exact ⟨(readParquet_schema batchSize b c hmem).trans (mem_paths w partitionFilter b hb),
    readParquet_pos batchSize b h c hmem⟩

theorem resultRows_read (batchSize : Nat) (h : 0 < batchSize) (bs : List (RecordBatch F)) :
    resultRows (bs.flatMap (readParquet batchSize)) = resultRows bs := by
  induction bs with
  | nil => rfl
  | cons b bs ih =>
    have hb := readParquet_rows batchSize b h
    simp only [resultRows, List.flatMap_cons, List.flatMap_append] at hb ih ⊢
    rw [hb, ih]

/-- An executor over written tables, with the batch size it reads Parquet files with. -/
def readEnv (clock : Int64) (tables : ∀ sig, Dataset F sig)
    (lexsort : List (SortColumn F) → Res (List Nat)) (batchSize : Nat) : Env F :=
  ⟨clock, fun sig => (tables sig).read batchSize, lexsort⟩

end Reading

section Law
variable [FloatOps F] [ParquetReader F] (clock : Int64) (tables : ∀ sig, Dataset F sig)
  (lexsort : List (SortColumn F) → Res (List Nat)) (catalog : Catalog)

theorem loadBatches_read (op : ScanOp F) (sig : SignalType)
    (hsig : signalForTable op.table = .ok sig) (batchSize : Nat) :
    loadBatches (readEnv clock tables lexsort batchSize) op =
      (loadAll clock op.predicate ((((tables sig).paths op.partitionFilter).flatMap
        (readParquet batchSize)).map .ok)).map (retainLimit op.limit) := by
  rw [loadBatches, hsig, ok_bind, ← sstablePaths_read]
  rfl

omit [FloatOps F] [ParquetReader F] in
theorem scanOp_unlimited (sel : SelectStatement F) :
    (sel.unlimited.scanOp clock catalog).predicate = sel.pushed clock ∧
      (sel.unlimited.scanOp clock catalog).table = sel.table.name ∧
      (sel.unlimited.scanOp clock catalog).limit = none := by
  rw [SelectStatement.scanOp, pruneScan]
  split <;> exact ⟨rfl, rfl, rfl⟩

omit [FloatOps F] [ParquetReader F] in
theorem overlappingPartitions_new (table : String) (a b : UInt64) :
    Catalog.new.overlappingPartitions table a b = [] := by
  have hstats : Catalog.new.stats table = some [] ∨ Catalog.new.stats table = none := by
    unfold Catalog.new
    by_cases h : table ∈ ["logs", "metrics", "traces"] <;> simp [h]
  rw [Catalog.overlappingPartitions]
  obtain h | h := hstats <;> simp [h]

/-- The stored rows of the partitions the statement's scan goes through. -/
def SelectStatement.candidates (sel : SelectStatement F) (sig : SignalType) :
    List (List (Cell F)) :=
  resultRows ((tables sig).paths (sel.unlimited.scanOp clock catalog).partitionFilter)

/-- A scan fails, or it keeps batches whose rows depend on the stored rows alone. -/
theorem stored_read (sel : SelectStatement F) (sig : SignalType)
    (hsig : signalForTable sel.table.name = .ok sig)
    (hrow : ∀ p ∈ sel.pushed clock, RowWise (schema sig) p) (batchSize : Nat)
    (h : 0 < batchSize) :
    (∃ out, stored (readEnv clock tables lexsort batchSize) catalog sel = .ok out ∧
        Proper (schema sig) out ∧ resultRows out = scanRows clock (schema sig) (sel.pushed clock)
          (sel.candidates clock tables catalog sig)) ∧
        Scannable clock (schema sig) (sel.pushed clock)
          (sel.candidates clock tables catalog sig) ∨
      (∃ s, stored (readEnv clock tables lexsort batchSize) catalog sel = .error s) ∧
        ¬ Scannable clock (schema sig) (sel.pushed clock)
          (sel.candidates clock tables catalog sig) := by
  obtain ⟨hpred, htable, hlimit⟩ := scanOp_unlimited clock catalog sel
  have hload := loadBatches_read clock tables lexsort (sel.unlimited.scanOp clock catalog) sig
    (htable ▸ hsig) batchSize
  have hcases := loadAll_cases clock (schema sig) (sel.pushed clock) hrow _
    (proper_read (tables sig) batchSize h (sel.unlimited.scanOp clock catalog).partitionFilter)
  rw [resultRows_read batchSize h] at hcases
  rw [hpred, hlimit] at hload
  change stored (readEnv clock tables lexsort batchSize) catalog sel = _ at hload
  rw [hload]
  obtain ⟨⟨out, hok, hout⟩, hscan⟩ | ⟨⟨s, hs⟩, hnot⟩ := hcases
  · exact Or.inl ⟨⟨out, by rw [hok]; rfl, hout⟩, hscan⟩
  · exact Or.inr ⟨⟨s, by rw [hs]; rfl⟩, hnot⟩

/-- A statement over one table that streams its rows: it has no truth value for some row it reads
and fails, or it returns the rows in which its predicate is true. -/
theorem execute_rows (sel : SelectStatement F) (hjoins : sel.joins = []) (hstream : sel.Streaming)
    (hskip : sel.skip = 0) (sig : SignalType) (hsig : signalForTable sel.table.name = .ok sig)
    (hrow : ∀ p ∈ sel.pushed clock, RowWise (schema sig) p) (batchSize : Nat)
    (hsize : 0 < batchSize) :
    (Scannable clock (schema sig) (sel.pushed clock) (sel.candidates clock tables catalog sig) ∧
      ∃ out, execute (readEnv clock tables lexsort batchSize) catalog sel = .ok out ∧
        resultRows out = sel.window (scanRows clock (schema sig) (sel.pushed clock)
          (sel.candidates clock tables catalog sig))) ∨
    (¬ Scannable clock (schema sig) (sel.pushed clock) (sel.candidates clock tables catalog sig) ∧
      ∃ s, execute (readEnv clock tables lexsort batchSize) catalog sel = .error s) := by
  rw [execute_select _ catalog sel hjoins]
  obtain ⟨⟨bs, hbs, -, hrows⟩, hscan⟩ | ⟨⟨s, hs⟩, hnot⟩ :=
    stored_read clock tables lexsort catalog sel sig hsig hrow batchSize hsize
  · refine Or.inl ⟨hscan, ?_⟩
    rw [hbs, ok_bind, ← hrows, SelectStatement.window]
    cases hn : sel.limit with
    | none =>
      rw [limited, hn, upper_streaming _ sel hstream, retainLimit, hskip]
      exact ⟨bs, Pull.collect_ofList bs, List.drop_zero.symm⟩
    | some n =>
      obtain ⟨out, hout, hfirst⟩ := limited_rows (readEnv clock tables lexsort batchSize) sel
        hstream n hn hskip bs
      rw [hn] at hout
      refine ⟨out, hout, ?_⟩
      rw [hfirst, hskip, List.drop_zero]
  · refine Or.inr ⟨hnot, s, ?_⟩
    rw [hs]
    rfl

end Law

def oneFile (records : List LogRecord) : (sig : SignalType) → Dataset Exact sig
  | .log =>
    ⟨[(0, [(⟨5, 7, 2⟩, storedBatch (fun _ => .num 0) Rows.noJson .log records)])],
      List.nodup_singleton 0, by
        intro e he f hf
        cases List.mem_singleton.mp he
        cases List.mem_singleton.mp hf
        rfl⟩
  | _ => ⟨[], List.nodup_nil, fun _ he => absurd he List.not_mem_nil⟩

theorem rowWise_body (text : String) : ∀ sig, signalForTable "logs" = .ok sig →
    ∀ p ∈ (logsWhere (bodyIs text)).pushed 0, RowWise (schema sig) p := by
  intro sig hsig p hp
  cases hsig
  cases hp
  refine ⟨⟨trivial, ?_⟩, Verdict.noConfusion⟩
  intro n hn
  cases hn

def severe (timestampNs : UInt64) (severity : String) : LogRecord :=
  { LogRecord.bare timestampNs none with severityText := LibBincode.Str.ofString severity }

def severityIs (text : String) : Expr Exact :=
  .binOp .eq (.column none "severity_text") (.literal (.str text))

def severityOf (row : Rows.LogRow) : Option String := row.severityText.map Subtype.val

theorem rowWise_severity (text : String) :
    ∀ p ∈ (logsWhere (severityIs text)).pushed 0, RowWise (schema .log) p := by
  intro p hp
  cases hp
  refine ⟨⟨trivial, ?_⟩, Verdict.noConfusion⟩
  intro n hn
  cases hn

section Severity
variable (float : F64 → Exact) (rows : List (SignalRow .log)) (text : String)

theorem rowExpr_severity (row : SignalRow .log) :
    ∃ x, rowExpr 0 (schema .log) (rowCells float .log row) (severityIs text) = .ok ⟨.boolean, x⟩ ∧
      x.isTrue = decide (severityOf row = some text) := by
  obtain ⟨_, _, _, _, _, o, _⟩ := row
  cases o with
  | none => exact ⟨_, rfl, rfl⟩
  | some s =>
    refine ⟨_, rfl, ?_⟩
    change (compareOfLessAndEq s.1 text == .eq) = decide (some s.1 = some text)
    by_cases h : s.1 = text
    · simp [compareOfLessAndEq, h]
    · by_cases hlt : s.1 < text <;> simp [compareOfLessAndEq, h, hlt]

theorem scannable_severity :
    Scannable 0 (schema .log) ((logsWhere (severityIs text)).pushed 0)
      (rows.map (rowCells float .log)) := by
  intro p hp row hrow
  cases hp
  obtain ⟨r, -, rfl⟩ := List.mem_map.mp hrow
  obtain ⟨x, hx, -⟩ := rowExpr_severity float text r
  exact ⟨x, hx⟩

theorem scanRows_severity :
    scanRows 0 (schema .log) ((logsWhere (severityIs text)).pushed 0)
        (rows.map (rowCells float .log)) =
      (rows.filter fun row => severityOf row = some text).map (rowCells float .log) := by
  change (rows.map (rowCells float .log)).filter _ = _
  rw [List.filter_map]
  congr 1
  apply List.filter_congr
  intro row _
  obtain ⟨x, hx, htrue⟩ := rowExpr_severity float text row
  exact (congrArg accepts hx).trans htrue

end Severity

end InfraLens.Query
