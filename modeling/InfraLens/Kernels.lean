import InfraLens.Executor
import InfraLens.RowRefinement

/-! The rows of what `concat_batches` and `take_record_batch` return, and how the sort operator
uses the two. -/
namespace InfraLens.Query
open Schema Arrow LibExcept

variable {F : Type}

/-! ### Rows by index -/

theorem zip_filterMap_get {α β : Type} (xs : List α) (ys : List β) (indices : List Nat)
    (hx : ∀ i ∈ indices, i < xs.length) (hy : ∀ i ∈ indices, i < ys.length) :
    (indices.filterMap (xs[·]?)).zip (indices.filterMap (ys[·]?)) =
      indices.filterMap ((xs.zip ys)[·]?) := by
  induction indices with
  | nil => rfl
  | cons i indices ih =>
    have hxi := hx i List.mem_cons_self
    have hyi := hy i List.mem_cons_self
    have hrest := ih (fun j hj => hx j (List.mem_cons_of_mem i hj))
      fun j hj => hy j (List.mem_cons_of_mem i hj)
    have hzip : (xs.zip ys)[i]? = some (xs[i], ys[i]) := by
      simp [hxi, hyi]
    rw [List.filterMap_cons_some (List.getElem?_eq_getElem hxi),
      List.filterMap_cons_some (List.getElem?_eq_getElem hyi), List.filterMap_cons_some hzip,
      List.zip_cons_cons, hrest]

theorem getElem?_filterMap_get {α : Type} (xs : List α) (indices : List Nat)
    (h : ∀ i ∈ indices, i < xs.length) (p i : Nat) (hp : indices[p]? = some i) :
    (indices.filterMap (xs[·]?))[p]? = xs[i]? := by
  induction indices generalizing p with
  | nil => cases hp
  | cons k indices ih =>
    have hk := h k List.mem_cons_self
    rw [List.filterMap_cons_some (List.getElem?_eq_getElem hk)]
    cases p with
    | zero =>
      cases hp
      rw [List.getElem?_cons_zero, List.getElem?_eq_getElem hk]
    | succ p => exact ih (fun j hj => h j (List.mem_cons_of_mem k hj)) p hp

theorem filterMap_get_range {α : Type} (xs : List α) :
    (List.range xs.length).filterMap (xs[·]?) = xs := by
  induction xs with
  | nil => rfl
  | cons x xs ih =>
    have hzero : (x :: xs)[0]? = some x := rfl
    rw [List.length_cons, List.range_succ_eq_map, List.filterMap_cons_some hzero,
      List.filterMap_map]
    exact congrArg (x :: ·) ih

def takeColumn (indices : List Nat) (c : ArrayRef F) : ArrayRef F :=
  ⟨c.dataType, indices.filterMap (c.slots[·]?)⟩

theorem cells_takeColumn (indices : List Nat) (c : ArrayRef F) :
    (takeColumn indices c).cells = indices.filterMap (c.cells[·]?) := by
  simp only [takeColumn, ArrayRef.cells, List.map_filterMap, List.getElem?_map]

theorem rowsOf_take (n : Nat) (indices : List Nat) (h : ∀ i ∈ indices, i < n)
    (cs : List (ArrayRef F)) (hcs : ∀ c ∈ cs, c.len = n) :
    rowsOf indices.length (cs.map (takeColumn indices)) =
      indices.filterMap ((rowsOf n cs)[·]?) := by
  induction cs with
  | nil =>
    have hget : ∀ i ∈ indices, (List.replicate n ([] : List (Cell F)))[i]? = some [] := by
      intro i hi
      simp [h i hi]
    rw [List.map_nil, rowsOf, rowsOf, List.filterMap_congr hget]
    simp [List.map_const']
  | cons c cs ih =>
    have hc := hcs c List.mem_cons_self
    have htail := fun a ha => hcs a (List.mem_cons_of_mem c ha)
    have hlen := length_rowsOf n cs htail
    rw [List.map_cons, rowsOf, rowsOf, ih htail, cells_takeColumn,
      zip_filterMap_get _ _ indices (by simpa [hc] using h) (by simpa [hlen] using h),
      List.map_filterMap]
    simp only [List.getElem?_map]

theorem takeRecordBatch_ok (b out : RecordBatch F) (indices : List Nat)
    (h : takeRecordBatch b indices = .ok out) :
    (∀ i ∈ indices, i < b.numRows) ∧ out.numRows = indices.length ∧ out.schema = b.schema ∧
      out.columns = b.columns.map (takeColumn indices) := by
  unfold takeRecordBatch at h
  split at h
  · rename_i hin
    cases h
    exact ⟨hin, rfl, rfl, rfl⟩
  · cases h

theorem rows_takeRecordBatch (b out : RecordBatch F) (indices : List Nat)
    (h : takeRecordBatch b indices = .ok out) (hperm : indices.Perm (List.range b.numRows)) :
    out.rows.Perm b.rows := by
  obtain ⟨hin, hnum, -, hcols⟩ := takeRecordBatch_ok b out indices h
  rw [RecordBatch.rows, hnum, hcols, rowsOf_take b.numRows indices hin b.columns b.sized]
  have hall := hperm.filterMap (b.rows[·]?)
  rw [← length_rows b, filterMap_get_range] at hall
  exact hall

/-! ### Rows one after the other -/

def cellRows (n : Nat) : List (List (Cell F)) → List (List (Cell F))
  | [] => List.replicate n []
  | c :: cs => (c.zip (cellRows n cs)).map fun p => p.1 :: p.2

theorem rowsOf_eq (n : Nat) (cs : List (ArrayRef F)) :
    rowsOf n cs = cellRows n (cs.map ArrayRef.cells) := by
  induction cs with
  | nil => rfl
  | cons c cs ih => rw [rowsOf, List.map_cons, cellRows, ih]

theorem length_cellRows (n : Nat) (cs : List (List (Cell F))) (h : ∀ c ∈ cs, c.length = n) :
    (cellRows n cs).length = n := by
  induction cs with
  | nil => simp [cellRows]
  | cons c cs ih =>
    have hc := h c List.mem_cons_self
    have hcs := ih fun a ha => h a (List.mem_cons_of_mem c ha)
    simp [cellRows, hc, hcs]

theorem cellRows_append {ι : Type} (n m : Nat) (is : List ι) (x y : ι → List (Cell F))
    (hx : ∀ i ∈ is, (x i).length = n) :
    cellRows (n + m) (is.map fun i => x i ++ y i) =
      cellRows n (is.map x) ++ cellRows m (is.map y) := by
  induction is with
  | nil => simp [cellRows]
  | cons i is ih =>
    have hi := hx i List.mem_cons_self
    have his := fun j hj => hx j (List.mem_cons_of_mem i hj)
    have hlen := length_cellRows n (is.map x) (by simpa using his)
    rw [List.map_cons, cellRows, ih his, List.zip_append (hi.trans hlen.symm), List.map_append]
    rfl

theorem cellRows_flatMap {ι β : Type} (is : List ι) (bs : List β) (n : β → Nat)
    (x : β → ι → List (Cell F)) (hx : ∀ b ∈ bs, ∀ i ∈ is, (x b i).length = n b) :
    cellRows (bs.map n).sum (is.map fun i => bs.flatMap fun b => x b i) =
      bs.flatMap fun b => cellRows (n b) (is.map (x b)) := by
  induction bs with
  | nil =>
    cases is with
    | nil => rfl
    | cons i is => simp [cellRows]
  | cons b bs ih =>
    have hb := hx b List.mem_cons_self
    have hbs := fun c hc => hx c (List.mem_cons_of_mem b hc)
    simp only [List.map_cons, List.sum_cons, List.flatMap_cons]
    rw [cellRows_append (n b) (bs.map n).sum is (x b) _ hb, ih hbs]

theorem cellRows_take (n w : Nat) (cs : List (List (Cell F))) (h : ∀ c ∈ cs, c.length = n) :
    cellRows n (cs.take w) = (cellRows n cs).map (List.take w) := by
  induction cs generalizing w with
  | nil => simp [cellRows]
  | cons c cs ih =>
    have hc := h c List.mem_cons_self
    have hcs := fun a ha => h a (List.mem_cons_of_mem c ha)
    cases w with
    | zero =>
      have hlen := length_cellRows n (c :: cs) h
      have hzero : (List.take 0 : List (Cell F) → List (Cell F)) = fun _ => [] := rfl
      rw [List.take_zero, hzero, List.map_const', hlen, cellRows]
    | succ w =>
      rw [List.take_succ_cons, cellRows, cellRows, ih w hcs, List.map_map, List.zip_map_right,
        List.map_map]
      rfl

theorem cells_concatArrays (as : List (ArrayRef F)) (a : ArrayRef F)
    (h : concatArrays as = .ok a) : a.cells = as.flatMap ArrayRef.cells := by
  induction as generalizing a with
  | nil => cases h
  | cons c cs ih =>
    cases cs with
    | nil =>
      cases h
      simp
    | cons d ds =>
      rw [concatArrays] at h
      · cases hrest : concatArrays (d :: ds) with
        | error s =>
          rw [hrest] at h
          cases h
        | ok rest =>
          rw [hrest] at h
          obtain ⟨t, slots⟩ := rest
          have hcells := ih ⟨t, slots⟩ hrest
          change (if heq : t = c.dataType then _ else _) = _ at h
          split at h
          · rename_i heq
            cases h
            subst heq
            rw [List.flatMap_cons, ← hcells]
            exact List.map_append
          · cases h
      · simp

theorem length_resultRows (bs : List (RecordBatch F)) :
    (resultRows bs).length = (bs.map RecordBatch.numRows).sum := by
  induction bs with
  | nil => rfl
  | cons b bs ih => rw [length_resultRows_cons, ih, List.map_cons, List.sum_cons]

def cellsAt (b : RecordBatch F) (i : Nat) : List (Cell F) :=
  ((b.columns[i]?).map ArrayRef.cells).getD []

theorem length_cellsAt (b : RecordBatch F) (i : Nat) (h : i < b.columns.length) :
    (cellsAt b i).length = b.numRows := by
  have hsized := b.sized b.columns[i] (List.getElem_mem h)
  simp [cellsAt, List.getElem?_eq_getElem h, hsized]

theorem map_cellsAt (b : RecordBatch F) (w : Nat) (h : w ≤ b.columns.length) :
    (List.range w).map (cellsAt b) = (b.columns.map ArrayRef.cells).take w := by
  apply List.ext_getElem
  · simp [h]
  · intro i hi _
    have hlt : i < b.columns.length := by
      rw [List.length_map, List.length_range] at hi
      omega
    simp [cellsAt, List.getElem?_eq_getElem hlt]

theorem columnAt_ok (i : Nat) (b : RecordBatch F) (a : ArrayRef F) (h : columnAt i b = .ok a) :
    i < b.columns.length ∧ a.cells = cellsAt b i := by
  unfold columnAt at h
  split at h
  · rename_i c hc
    cases h
    obtain ⟨hlt, -⟩ := List.getElem?_eq_some_iff.mp hc
    exact ⟨hlt, by rw [cellsAt, hc]; rfl⟩
  · cases h

theorem map_of_map_ok {α β γ : Type} (f : α → Res β) (g : β → γ) (k : α → γ) (xs : List α)
    (ys : List β) (h : xs.map f = ys.map .ok) (hg : ∀ x ∈ xs, ∀ y, f x = .ok y → g y = k x) :
    ys.map g = xs.map k := by
  induction xs generalizing ys with
  | nil =>
    have hys : ys = [] := by simpa using h.symm
    rw [hys]
    rfl
  | cons x xs ih =>
    cases ys with
    | nil => cases h
    | cons y ys =>
      obtain ⟨hx, hxs⟩ := List.cons.inj h
      rw [List.map_cons, List.map_cons, hg x List.mem_cons_self y hx,
        ih ys hxs fun z hz => hg z (List.mem_cons_of_mem x hz)]

theorem concatColumn_ok (i : Nat) (bs : List (RecordBatch F)) (a : ArrayRef F)
    (h : (do concatArrays (← bs.mapM (columnAt i))) = .ok a) :
    (∀ b ∈ bs, i < b.columns.length) ∧ a.cells = bs.flatMap fun b => cellsAt b i := by
  obtain ⟨as, hok, hcols⟩ | ⟨s, herr, -⟩ := mapM_cases (columnAt i) bs
  · rw [hok] at h
    have hcells := cells_concatArrays as a h
    refine ⟨?_, ?_⟩
    · intro b hb
      have hmem : columnAt i b ∈ as.map Except.ok := by
        rw [← hcols]
        exact List.mem_map_of_mem hb
      obtain ⟨c, -, hc⟩ := List.mem_map.mp hmem
      exact (columnAt_ok i b c hc.symm).1
    · have hmap := map_of_map_ok (columnAt i) ArrayRef.cells (fun b => cellsAt b i) bs as hcols
        fun b _ c hc => (columnAt_ok i b c hc).2
      rw [hcells, List.flatMap_def, hmap, ← List.flatMap_def]
  · rw [herr] at h
    cases h

theorem tryNew_ok (schema : List Field) (columns : List (ArrayRef F)) (b : RecordBatch F)
    (h : tryNew schema columns = .ok b) : b.schema = schema ∧ b.columns = columns := by
  unfold tryNew at h
  split at h
  · cases h
  · split at h
    · cases h
      exact ⟨rfl, rfl⟩
    · cases h

theorem concatColumns_ok (w : Nat) (bs : List (RecordBatch F)) (cols : List (ArrayRef F))
    (h : (List.range w).map (fun i => do concatArrays (← bs.mapM (columnAt i))) =
      cols.map .ok) :
    (∀ b ∈ bs, w ≤ b.columns.length) ∧
      cols.map ArrayRef.cells = (List.range w).map fun i => bs.flatMap fun b => cellsAt b i := by
  refine ⟨?_, map_of_map_ok _ _ _ _ _ h fun i _ a ha => (concatColumn_ok i bs a ha).2⟩
  intro b hb
  by_contra hshort
  -- the batch would have to have a column at its own width
  have hmem : (do concatArrays (← bs.mapM (columnAt b.columns.length))) ∈ cols.map Except.ok := by
    rw [← h]
    exact List.mem_map_of_mem (f := fun i => do concatArrays (← bs.mapM (columnAt i)))
      (List.mem_range.mpr (Nat.lt_of_not_le hshort))
  obtain ⟨a, -, ha⟩ := List.mem_map.mp hmem
  exact Nat.lt_irrefl _ ((concatColumn_ok b.columns.length bs a ha.symm).1 b hb)

theorem cellRows_cellsAt (w : Nat) (bs : List (RecordBatch F))
    (h : ∀ b ∈ bs, w ≤ b.columns.length) :
    cellRows (bs.map RecordBatch.numRows).sum
        ((List.range w).map fun i => bs.flatMap fun b => cellsAt b i) =
      (resultRows bs).map (List.take w) := by
  rw [cellRows_flatMap _ bs RecordBatch.numRows cellsAt, resultRows, List.map_flatMap]
  · apply List.flatMap_congr
    intro b hb
    have hcells : ∀ c ∈ b.columns.map ArrayRef.cells, c.length = b.numRows := by
      intro c hc
      obtain ⟨a, ha, rfl⟩ := List.mem_map.mp hc
      rw [ArrayRef.length_cells, b.sized a ha]
    rw [map_cellsAt b w (h b hb), cellRows_take _ w _ hcells, ← rowsOf_eq]
    rfl
  · intro b hb i hi
    have hw := h b hb
    rw [List.mem_range] at hi
    exact length_cellsAt b i (by omega)

theorem numRows_concat (c : RecordBatch F) (w : Nat) (bs : List (RecordBatch F)) (hw : 0 < w)
    (hwide : ∀ b ∈ bs, w ≤ b.columns.length)
    (hcells : c.columns.map ArrayRef.cells =
      (List.range w).map fun i => bs.flatMap fun b => cellsAt b i) :
    c.numRows = (bs.map RecordBatch.numRows).sum := by
  have hmem : (bs.flatMap fun b => cellsAt b 0) ∈ c.columns.map ArrayRef.cells := by
    rw [hcells]
    exact List.mem_map_of_mem (f := fun i => bs.flatMap fun b => cellsAt b i)
      (List.mem_range.mpr hw)
  obtain ⟨a, ha, hfirst⟩ := List.mem_map.mp hmem
  have hlen := congrArg List.length hfirst
  have hrows : bs.map (fun b => (cellsAt b 0).length) = bs.map RecordBatch.numRows := by
    apply List.map_congr_left
    intro b hb
    exact length_cellsAt b 0 (Nat.lt_of_lt_of_le hw (hwide b hb))
  rw [ArrayRef.length_cells, c.sized a ha, List.length_flatMap, hrows] at hlen
  exact hlen

theorem concatBatches_ok (schema : List Field) (bs : List (RecordBatch F)) (c : RecordBatch F)
    (h : concatBatches schema bs = .ok c) :
    c.schema = schema ∧ c.columns.length = schema.length ∧
      c.rows = (resultRows bs).map (List.take schema.length) := by
  unfold concatBatches at h
  split at h
  next hempty =>
    have hnil : schema = [] := List.isEmpty_iff.mp hempty
    have hlen : schema.length = 0 := List.length_eq_zero_iff.mpr hnil
    have hzero : (List.take 0 : List (Cell F) → List (Cell F)) = fun _ => [] := rfl
    cases h
    rw [hlen, hzero, List.map_const', length_resultRows]
    exact ⟨hnil.symm, rfl, rfl⟩
  next hne =>
    obtain ⟨cols, hok, hcols⟩ | ⟨s, herr, -⟩ := mapM_cases
      (fun i => do concatArrays (← bs.mapM (columnAt i))) (List.range schema.length)
    · rw [hok] at h
      obtain ⟨hschema, hcolumns⟩ := tryNew_ok schema cols c h
      obtain ⟨hwide, hcells⟩ := concatColumns_ok schema.length bs cols hcols
      have hwidth : c.columns.length = schema.length := by
        have hlen := congrArg List.length c.typed
        rw [List.length_map, List.length_map, hschema] at hlen
        exact hlen
      have hpos : 0 < schema.length := List.length_pos_iff.mpr (by simpa using hne)
      rw [← hcolumns] at hcells
      have hnum := numRows_concat c schema.length bs hpos hwide hcells
      rw [← cellRows_cellsAt schema.length bs hwide, ← hcells, ← hnum, ← rowsOf_eq]
      exact ⟨hschema, hwidth, rfl⟩
    · rw [herr] at h
      cases h

/-- What `materialize` does: nothing for no batch, and otherwise the concatenation, as it is or
taken in the order found for the columns to sort by. -/
theorem materialize_cases (lexsort : List (SortColumn F) → Res (List Nat))
    (keys : List (Expr F × Bool)) (bs outs : List (RecordBatch F))
    (h : materialize lexsort keys bs = .ok outs) :
    (bs = [] ∧ outs = []) ∨
      ∃ first c out, bs.head? = some first ∧ concatBatches first.schema bs = .ok c ∧
        outs = [out] ∧ (sortColumns keys c = [] ∧ out = c ∨
          sortColumns keys c ≠ [] ∧ ∃ indices, lexsort (sortColumns keys c) = .ok indices ∧
            takeRecordBatch c indices = .ok out) := by
  cases bs with
  | nil =>
    cases h
    exact .inl ⟨rfl, rfl⟩
  | cons b bs =>
    obtain ⟨c, hc, hrest⟩ := of_bind_ok _ _ _ h
    refine .inr ⟨b, c, ?_⟩
    by_cases hempty : (sortColumns keys c).isEmpty
    · rw [if_pos hempty] at hrest
      cases hrest
      exact ⟨c, rfl, hc, rfl, .inl ⟨List.isEmpty_iff.mp hempty, rfl⟩⟩
    · rw [if_neg hempty] at hrest
      obtain ⟨indices, hsort, htaken⟩ := of_bind_ok _ _ _ hrest
      obtain ⟨out, hout, hpure⟩ := of_bind_ok _ _ _ htaken
      cases hpure
      exact ⟨out, rfl, hc, rfl, .inr ⟨by simpa using hempty, indices, hsort, hout⟩⟩

end InfraLens.Query
