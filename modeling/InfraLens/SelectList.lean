import InfraLens.Kernels
import InfraLens.Limits

/-! The select list of a statement over one table: the planner keeps the names of its columns and
the scan is told them, but no operator reads them, so every batch has the columns of the table. -/
namespace InfraLens.Query
open Schema Arrow Model LibPull LibExcept

variable {F : Type}

/-! ### What a select list asks for -/

/-- The name a projection gives its column: the alias, or the name of a plain column. -/
def Projection.name? : Projection F → Option String
  | .expr (.column _ name) aliasName => some (aliasName.getD name)
  | .expr _ aliasName => aliasName
  | .star => none

/-- The same statement with `*`: its rows have every stored column. -/
def SelectStatement.whole (sel : SelectStatement F) : SelectStatement F :=
  { sel with projections := [.star] }

/-- One column for each projection, in order, under the projection's name if it gives one. -/
def Named (fields : List Field) (ps : List (Projection F)) : Prop :=
  List.Forall₂ (fun f p => ∀ name ∈ p.name?, f.name = name) fields ps

section Values
variable [FloatOps F]

/-- The value of a projection on one row, from the columns of that row alone. -/
def Projection.value? (clock : Int64) (b : RecordBatch F) (k : Nat) : Projection F → Option (Cell F)
  | .expr e _ =>
    match evalExpr clock (b.slice k 1) e with
    | .ok a => a.cells.head?
    | .error _ => none
  | .star => none

/-- A batch has what the list selects from the batch of all stored columns. -/
structure Selects (clock : Int64) (ps : List (Projection F)) (whole b : RecordBatch F) : Prop where
  named : Named b.schema ps
  sized : b.numRows = whole.numRows
  values : ∀ k row, b.rows[k]? = some row → row.map some = ps.map (·.value? clock whole k)

/-- Every batch returned has what the statement selects, from the batch with all columns that
the statement with `*` returns in its place. -/
def SelectLaw (env : Env F) (catalog : Catalog) (sel : SelectStatement F) : Prop :=
  ∀ whole out, execute env catalog sel.whole = .ok whole → execute env catalog sel = .ok out →
    List.Forall₂ (Selects env.clock sel.projections) whole out

/-- The list has the columns of the table, in order and under their names, and gives back every
row of the batch as it is stored. -/
def ListsTable (clock : Int64) (signal : SignalType) (ps : List (Projection F))
    (b : RecordBatch F) : Prop :=
  Named (schema signal) ps ∧
    ∀ k row, b.rows[k]? = some row → row.map some = ps.map (·.value? clock b k)

/-! ### The list is not read -/

theorem execute_whole (env : Env F) (catalog : Catalog) (sel : SelectStatement F)
    (hjoins : sel.joins = []) (hplain : sel.grouped = false) :
    execute env catalog sel.whole = execute env catalog sel := by
  have hgroup : sel.groupBy.isEmpty = true := by
    rw [SelectStatement.grouped, Bool.not_eq_false', Bool.and_eq_true] at hplain
    exact hplain.2
  have hwhole : sel.whole.grouped = false := by
    simp [SelectStatement.grouped, SelectStatement.whole, extractAggregates, hgroup]
  have hupper : ∀ child, upper env sel.whole child = upper env sel child := by
    intro child
    simp only [upper, groupedPart, hplain, hwhole]
    rfl
  have hstored : stored env catalog sel.whole = stored env catalog sel := by
    have hun : sel.unlimited.grouped = false := hplain
    have hun' : sel.whole.unlimited.grouped = false := hwhole
    simp only [stored, SelectStatement.scanOp, SelectStatement.pushed, hun, hun']
    rfl
  rw [execute_select env catalog sel hjoins, execute_select env catalog sel.whole hjoins, hstored]
  congr 1
  funext bs
  rw [hupper]
  rfl

/-! ### Schemas -/

/-- The files of every signal have its schema. -/
def TypedStorage (storage : Storage F) : Prop :=
  ∀ signal, ∀ e ∈ (storage signal).entries, ∀ f ∈ e.2, ∀ b, .ok b ∈ f.batches →
    b.schema = schema signal

theorem schema_selected (clock : Int64) (p : Expr F) (b c : RecordBatch F)
    (h : selected clock p b = .ok (some c)) : c.schema = b.schema := by
  obtain ⟨d, hd, hc⟩ := of_bind_ok (applyPredicate clock b p) (fun d => pure (nonEmpty d)) _ h
  obtain ⟨mask, _, hfilter⟩ := of_bind_ok _ _ _ hd
  have hd : nonEmpty d = some c := Except.ok.inj hc
  unfold nonEmpty at hd
  split at hd
  · cases hd
    exact schema_filter b _ mask hfilter
  · cases hd

theorem schema_loadAll (clock : Int64) (predicate : Option (Expr F)) (fields : List Field)
    (rs : List (Except String (RecordBatch F))) (hrs : ∀ b, .ok b ∈ rs → b.schema = fields)
    (bs : List (RecordBatch F)) (h : loadAll clock predicate rs = .ok bs) :
    ∀ b ∈ bs, b.schema = fields := by
  induction rs generalizing bs with
  | nil =>
    cases h
    simp
  | cons r rs ih =>
    have hrest := ih fun b hb => hrs b (List.mem_cons_of_mem r hb)
    cases r with
    | error msg => cases h
    | ok b₀ =>
      have hb₀ := hrs b₀ List.mem_cons_self
      rw [loadAll, readBatch, ok_bind] at h
      cases predicate with
      | none =>
        obtain ⟨cs, hcs, hout⟩ := of_bind_ok _ _ _ h
        cases hout
        intro b hb
        cases List.mem_cons.mp hb with
        | inl he => exact he ▸ hb₀
        | inr hm => exact hrest cs hcs b hm
      | some p =>
        obtain ⟨o, hsel, h⟩ := of_bind_ok _ _ _ h
        obtain ⟨cs, hcs, hout⟩ := of_bind_ok _ _ _ h
        cases hout
        intro b hb
        cases List.mem_append.mp hb with
        | inl ho =>
          rw [Option.mem_toList] at ho
          rw [ho] at hsel
          exact (schema_selected clock p b₀ b hsel).trans hb₀
        | inr hm => exact hrest cs hcs b hm

omit [FloatOps F] in
theorem mem_retainLimit (limit : Option UInt64) (bs : List (RecordBatch F)) (b : RecordBatch F)
    (h : b ∈ retainLimit limit bs) : b ∈ bs := by
  cases limit with
  | none => exact h
  | some n => exact (retain_front n.toNat 0 bs).subset h

omit [FloatOps F] in
theorem sstablePaths_typed (env : Env F) (hstorage : TypedStorage env.storage)
    (signal : SignalType) (partitionFilter : List UInt64) (b : RecordBatch F)
    (h : .ok b ∈ ((env.storage signal).sstablePaths partitionFilter).flatMap SSTableFile.batches) :
    b.schema = schema signal := by
  obtain ⟨f, hf, hb⟩ := List.mem_flatMap.mp h
  obtain ⟨key, _, hget⟩ := List.mem_flatMap.mp hf
  unfold Partitions.get at hget
  cases he : (env.storage signal).entries.find? (fun e => e.1 = key) with
  | none =>
    rw [he] at hget
    cases hget
  | some e =>
    rw [he] at hget
    exact hstorage signal e (List.mem_of_find?_eq_some he) f hget b hb

theorem schema_loadBatches (env : Env F) (hstorage : TypedStorage env.storage) (op : ScanOp F)
    (signal : SignalType) (hsignal : signalForTable op.table = .ok signal)
    (bs : List (RecordBatch F)) (h : loadBatches env op = .ok bs) :
    ∀ b ∈ bs, b.schema = schema signal := by
  rw [loadBatches, hsignal, ok_bind] at h
  obtain ⟨all, hall, hout⟩ := of_bind_ok _ _ _ h
  cases hout
  intro b hb
  exact schema_loadAll env.clock op.predicate (schema signal) _
    (fun c hc => sstablePaths_typed env hstorage signal _ c hc) all hall b
    (mem_retainLimit op.limit all b hb)

omit [FloatOps F] in
theorem schema_materialize (lexsort : List (SortColumn F) → Res (List Nat))
    (keys : List (Expr F × Bool)) (fields : List Field) (bs out : List (RecordBatch F))
    (hbs : ∀ b ∈ bs, b.schema = fields) (h : materialize lexsort keys bs = .ok out) :
    ∀ b ∈ out, b.schema = fields := by
  obtain ⟨-, rfl⟩ | ⟨first, c, sorted, hhead, hc, rfl, hcases⟩ :=
    materialize_cases lexsort keys bs out h
  · simp
  · have hconcat : c.schema = fields :=
      (concatBatches_ok _ _ c hc).1.trans (hbs first (List.mem_of_head? hhead))
    intro b hb
    rw [List.mem_singleton.mp hb]
    obtain ⟨-, rfl⟩ | ⟨-, indices, -, htake⟩ := hcases
    · exact hconcat
    · exact (takeRecordBatch_ok c sorted indices htake).2.2.1.trans hconcat

omit [FloatOps F] in
theorem schema_limitStep (s s' : Nat × Nat) (b c : RecordBatch F)
    (h : limitStep s b = .ok (s', some c)) : c.schema = b.schema := by
  unfold limitStep at h
  split at h
  · cases h
  · cases h
    split <;> rfl

theorem all_upper (env : Env F) (sel : SelectStatement F) (hplain : sel.grouped = false)
    (fields : List Field) (child : Pull Stop (RecordBatch F))
    (h : child.All fun b => b.schema = fields) :
    (limited sel (upper env sel child)).All fun b => b.schema = fields := by
  have hupper : (upper env sel child).All fun b => b.schema = fields := by
    simp only [upper, groupedPart, hplain, Bool.false_eq_true, if_false]
    split
    · exact h
    · unfold sortOperator blocking
      split
      next bs hbs =>
        obtain ⟨cs, hcs, hout⟩ := of_bind_ok _ _ _ hbs
        exact Pull.all_ofList _ bs (schema_materialize _ _ fields cs bs
          (Pull.all_collect _ child h cs hcs) hout)
      next => trivial
  unfold limited
  split
  · exact Pull.all_transduce _ _ _ _ (fun s b s' c hb hc => (schema_limitStep s s' b c hc).trans hb)
      _ hupper _
  · exact hupper

theorem schema_execute (env : Env F) (catalog : Catalog) (sel : SelectStatement F)
    (hstorage : TypedStorage env.storage) (hjoins : sel.joins = []) (hplain : sel.grouped = false)
    (signal : SignalType) (hsignal : signalForTable sel.table.name = .ok signal)
    (out : List (RecordBatch F)) (h : execute env catalog sel = .ok out) :
    ∀ b ∈ out, b.schema = schema signal := by
  rw [execute, executePlan, build_select env catalog sel hjoins] at h
  obtain ⟨pull, hpull, hout⟩ := of_bind_ok _ _ _ h
  obtain ⟨bs, hbs, hbuild⟩ := of_bind_ok (loadBatches env (sel.scanOp env.clock catalog))
    (fun bs => pure (limited sel (upper env sel (Pull.ofList bs)))) _ hpull
  cases hbuild
  have htable : signalForTable (sel.scanOp env.clock catalog).table = .ok signal := by
    rw [← hsignal, SelectStatement.scanOp, pruneScan]
    split <;> rfl
  exact Pull.all_collect _ _ (all_upper env sel hplain (schema signal) _ (Pull.all_ofList _ bs
    (schema_loadBatches env hstorage _ signal htable bs hbs))) out hout

omit [FloatOps F] in
theorem table_of_scanOp (clock : Int64) (catalog : Catalog) (sel : SelectStatement F) :
    (sel.scanOp clock catalog).table = sel.table.name := by
  rw [SelectStatement.scanOp, pruneScan]
  split <;> rfl

theorem signal_of_execute (env : Env F) (catalog : Catalog) (sel : SelectStatement F)
    (hjoins : sel.joins = []) (out : List (RecordBatch F))
    (h : execute env catalog sel = .ok out) :
    ∃ signal, signalForTable sel.table.name = .ok signal := by
  rw [execute, executePlan, build_select env catalog sel hjoins] at h
  obtain ⟨pull, hpull, _⟩ := of_bind_ok _ _ _ h
  obtain ⟨bs, hbs, _⟩ := of_bind_ok (loadBatches env (sel.scanOp env.clock catalog))
    (fun bs => pure (limited sel (upper env sel (Pull.ofList bs)))) _ hpull
  obtain ⟨signal, hsignal, _⟩ := of_bind_ok _ _ _ hbs
  exact ⟨signal, table_of_scanOp env.clock catalog sel ▸ hsignal⟩

/-- A statement returns what it selects when its list has the columns of the table, in order and
under their names, and gives every row back as it is stored, and only then. -/
theorem select_list_law (env : Env F) (catalog : Catalog) (sel : SelectStatement F)
    (hstorage : TypedStorage env.storage) (hjoins : sel.joins = [])
    (hplain : sel.grouped = false) :
    SelectLaw env catalog sel ↔ ∀ signal, signalForTable sel.table.name = .ok signal →
      ∀ out, execute env catalog sel.whole = .ok out → ∀ b ∈ out,
        ListsTable env.clock signal sel.projections b := by
  rw [SelectLaw, execute_whole env catalog sel hjoins hplain]
  constructor
  · intro hlaw signal hsignal out hout b hb
    have hsel := List.forall₂_same.mp (hlaw out out hout hout) b hb
    have hschema :=
      schema_execute env catalog sel hstorage hjoins hplain signal hsignal out hout b hb
    exact ⟨hschema ▸ hsel.named, hsel.values⟩
  · intro hlists whole out hwhole hout
    obtain rfl : whole = out := Except.ok.inj (hwhole.symm.trans hout)
    obtain ⟨signal, hsignal⟩ := signal_of_execute env catalog sel hjoins whole hwhole
    refine List.forall₂_same.mpr ?_
    intro b hb
    have hschema :=
      schema_execute env catalog sel hstorage hjoins hplain signal hsignal whole hout b hb
    obtain ⟨hnamed, hvalues⟩ := hlists signal hsignal whole hwhole b hb
    exact ⟨hschema.symm ▸ hnamed, rfl, hvalues⟩

/-! ### The columns of the table themselves -/

def tableColumns (signal : SignalType) : List (Projection F) :=
  (schema signal).map fun f => .expr (.column none f.name) none

omit [FloatOps F] in
theorem cells_slice_head (c : ArrayRef F) (k : Nat) : (c.slice k 1).cells.head? = c.cells[k]? := by
  rw [ArrayRef.cells, ArrayRef.cells, ArrayRef.slice, List.head?_map, List.getElem?_map]
  cases hd : c.slots.drop k with
  | nil => rw [List.getElem?_eq_none (List.drop_eq_nil_iff.mp hd)]; rfl
  | cons x xs =>
    have hx : c.slots[k]? = some x := by rw [← List.head?_drop, hd]; rfl
    rw [hx]
    rfl

theorem value?_column (clock : Int64) (b : RecordBatch F) (k i : Nat) (name : String)
    (row : List (Cell F)) (hi : indexOf b.schema name = some i) (hlt : i < b.columns.length)
    (hrow : b.rows[k]? = some row) :
    (Projection.expr (.column none name) none).value? clock b k = row[i]? := by
  have hcolumn : (b.slice k 1).column? name = some (b.columns[i].slice k 1) := by
    have hsame : (b.slice k 1).schema = b.schema := rfl
    rw [RecordBatch.column?, hsame, hi, Option.bind_some]
    change (b.columns.map _)[i]? = _
    rw [List.getElem?_map, List.getElem?_eq_getElem hlt]
    rfl
  have hcell : row[i]? = b.columns[i].cells[k]? := by
    have hread := congrArg (fun l => l[k]?)
      (map_rowsOf b.numRows b.columns b.sized i _ (List.getElem?_eq_getElem hlt))
    have hrow' : (rowsOf b.numRows b.columns)[k]? = some row := hrow
    rw [List.getElem?_map, List.getElem?_map, hrow', Option.map_some] at hread
    obtain ⟨x, hx, hrow'⟩ := Option.map_eq_some_iff.mp hread.symm
    rw [hx, hrow']
  simp only [Projection.value?, evalExpr, hcolumn, cells_slice_head, hcell]

omit [FloatOps F] in
theorem indexOf_schema (signal : SignalType) (i : Nat) (f : Field)
    (h : (schema signal)[i]? = some f) : indexOf (schema signal) f.name = some i := by
  have hnodup : ((schema signal).map Field.name).Nodup := by cases signal <;> decide
  obtain ⟨hlt, hf⟩ := List.getElem?_eq_some_iff.mp h
  refine List.findIdx?_eq_some_iff_getElem.mpr ⟨hlt, by simp [hf], ?_⟩
  intro j hj
  have hne := List.pairwise_iff_getElem.mp (List.pairwise_map.mp hnodup) j i (by omega) hlt hj
  simpa [hf] using hne

theorem listsTable_columns (clock : Int64) (signal : SignalType) (b : RecordBatch F)
    (hschema : b.schema = schema signal) : ListsTable clock signal (tableColumns signal) b := by
  refine ⟨?_, ?_⟩
  · refine List.forall₂_map_right_iff.mpr (List.forall₂_same.mpr ?_)
    intro f _ name hname
    exact Option.some.inj hname
  · intro k row hrow
    have hlen : row.length = (schema signal).length := by
      have htyped := (rowOf_rows b row (List.mem_of_getElem? hrow)).typed
      simpa [hschema] using congrArg List.length htyped
    have hcols : b.columns.length = (schema signal).length := by
      simpa [hschema] using congrArg List.length b.typed
    refine List.ext_getElem? ?_
    intro i
    rw [tableColumns, List.map_map, List.getElem?_map, List.getElem?_map]
    cases hf : (schema signal)[i]? with
    | none =>
      have hle := List.getElem?_eq_none_iff.mp hf
      rw [List.getElem?_eq_none (by omega)]
      rfl
    | some f =>
      obtain ⟨hlt, _⟩ := List.getElem?_eq_some_iff.mp hf
      have hi : indexOf b.schema f.name = some i := by
        rw [hschema]
        exact indexOf_schema signal i f hf
      have hvalue := value?_column clock b k i f.name row hi (by omega) hrow
      simp only [Option.map_some, Function.comp_apply, hvalue]
      rw [List.getElem?_eq_getElem (by omega)]
      rfl

end Values

def everyLogColumn : SelectStatement Exact :=
  ⟨tableColumns .log, ⟨"logs", none⟩, [], none, [], none, [], none, none⟩

theorem typedStorage_logs (key : UInt64) (records : List (UInt64 × String)) :
    TypedStorage (logsEnv key (records.map fun r => logFile r.1 r.2)).storage := by
  intro signal e he f hf b hb
  cases signal with
  | log =>
    rw [List.mem_singleton.mp he] at hf
    obtain ⟨r, _, rfl⟩ := List.mem_map.mp hf
    obtain rfl : b = logBatch r.1 r.2 := Except.ok.inj (List.mem_singleton.mp hb)
    rfl
  | metric => cases he
  | span => cases he

/-- A list of all columns of the logs selects them. -/
theorem select_list_every_column :
    SelectLaw (logsEnv 1 [logFile 5 "x"]) Catalog.new everyLogColumn := by
  have hstorage := typedStorage_logs 1 [(5, "x")]
  refine (select_list_law _ Catalog.new everyLogColumn hstorage rfl rfl).mpr ?_
  intro signal hsignal out hout b hb
  cases hsignal
  rw [execute_whole _ Catalog.new everyLogColumn rfl rfl] at hout
  exact listsTable_columns _ .log b
    (schema_execute _ Catalog.new everyLogColumn hstorage rfl rfl .log rfl out hout b hb)

def bodies : SelectStatement Exact :=
  { everyLogColumn with projections := [.expr (.column none "body") none] }

/-- It returns every column of the logs. -/
theorem select_list_ignored : ¬ SelectLaw (logsEnv 1 [logFile 5 "x"]) Catalog.new bodies := by
  intro hlaw
  have hsel := List.forall₂_same.mp (hlaw [logBatch 5 "x"] [logBatch 5 "x"] rfl rfl)
    (logBatch 5 "x") List.mem_cons_self
  exact absurd hsel.named.length_eq (by decide)

end InfraLens.Query
