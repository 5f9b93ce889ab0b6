import InfraLens.Kernels
import InfraLens.LibLex

/-! ORDER BY (executor/sort.rs): what the operator emits against the order its keys ask for.
`lexsort_to_indices` is taken to sort the columns it is given; the operator gives it only the
keys that are columns of the batch. -/
namespace InfraLens.Query
open Schema Arrow LibPull LibLex LibExcept

variable {F : Type} [FloatOps F]

/-! ### The order of the keys -/

/-- Arrow's order on the values of one type. -/
def sortCmp : (t : DataType) → Value F t → Value F t → Ordering
  | .uint64 => fun (a b : UInt64) => compareOfLessAndEq a b
  | .int64 => fun (a b : Int64) => compareOfLessAndEq a b
  | .int32 => fun (a b : Int32) => compareOfLessAndEq a b
  | .int8 => fun (a b : Int8) => compareOfLessAndEq a b
  | .float64 => fun (a b : F) => FloatOps.totalCmp a b
  | .utf8 => fun (a b : String) => compareOfLessAndEq a b
  | .binary => fun (a b : List UInt8) => compareOfLessAndEq a b
  | .boolean => fun (a b : Bool) => compareOfLessAndEq a b

/-- Nulls last, in either direction. -/
def slotCmp {α : Type} (cmp : α → α → Ordering) (descending : Bool) : Slot α → Slot α → Ordering
  | .valid a, .valid b => if descending then (cmp a b).swap else cmp a b
  | .valid _, .null _ => .lt
  | .null _, .valid _ => .gt
  | .null _, .null _ => .eq

def placeCmp {α : Type} (cmp : α → α → Ordering) (xs : List α) (i j : Nat) : Ordering :=
  match xs[i]?, xs[j]? with
  | some x, some y => cmp x y
  | _, _ => .eq

def SortColumn.cmp (c : SortColumn F) (i j : Nat) : Ordering :=
  placeCmp (slotCmp (sortCmp c.values.dataType) c.descending) c.values.slots i j

def columnsCmp (cs : List (SortColumn F)) (i j : Nat) : Ordering := lex (cs.map (·.cmp i j))

/-- `lexsort_to_indices` on columns of one length: it fails, or returns all rows in order. -/
def Lexsorts (lexsort : List (SortColumn F) → Res (List Nat)) : Prop :=
  ∀ cs n indices, cs ≠ [] → (∀ c ∈ cs, c.values.len = n) → lexsort cs = .ok indices →
    indices.Perm (List.range n) ∧ indices.Pairwise fun i j => columnsCmp cs i j ≠ .gt

def keyValues (clock : Int64) (keys : List (Expr F × Bool)) (b : RecordBatch F) :
    Res (List (SortColumn F)) :=
  keys.mapM fun k => (evalExpr clock b k.1).map fun c => ⟨c, !k.2⟩

/-- Of any two rows the first does not come after the second by the values of the keys. -/
def SortedBy (clock : Int64) (keys : List (Expr F × Bool)) (b : RecordBatch F) : Prop :=
  ∀ i j, i < j → j < b.numRows →
    ∃ cs, keyValues clock keys b = .ok cs ∧ columnsCmp cs i j ≠ .gt

/-- The operator fails, or emits the rows of its child in the order of all keys. -/
def OrderLaw (lexsort : List (SortColumn F) → Res (List Nat)) (clock : Int64)
    (keys : List (Expr F × Bool)) (child : Pull Stop (RecordBatch F)) : Prop :=
  ∀ outs, (sortOperator lexsort keys child).collect = .ok outs →
    ∃ bs, child.collect = .ok bs ∧ (resultRows outs).Perm (resultRows bs) ∧
      outs.length ≤ 1 ∧ ∀ b ∈ outs, SortedBy clock keys b

/-! ### The keys that take part -/

omit [FloatOps F] in
def sortColumn? (b : RecordBatch F) (k : Expr F × Bool) : Option (SortColumn F) :=
  match k.1 with
  | .column _ name => (b.column? name).map fun c => ⟨c, !k.2⟩
  | _ => none

omit [FloatOps F] in
theorem sortColumns_eq (keys : List (Expr F × Bool)) (b : RecordBatch F) :
    sortColumns keys b = keys.filterMap (sortColumn? b) := rfl

theorem evalExpr_of_sortColumn (clock : Int64) (b : RecordBatch F) (k : Expr F × Bool)
    (c : SortColumn F) (h : sortColumn? b k = some c) :
    (evalExpr clock b k.1).map (fun a => (⟨a, !k.2⟩ : SortColumn F)) = .ok c := by
  obtain ⟨e, asc⟩ := k
  unfold sortColumn? at h
  split at h
  next table name he =>
    obtain ⟨a, ha, rfl⟩ := Option.map_eq_some_iff.mp h
    change e = .column table name at he
    rw [he, evalExpr, ha]
    rfl
  next => cases h

theorem keyValues_cons (clock : Int64) (b : RecordBatch F) (k : Expr F × Bool)
    (keys : List (Expr F × Bool)) (cs : List (SortColumn F))
    (h : keyValues clock (k :: keys) b = .ok cs) :
    ∃ c cs', (evalExpr clock b k.1).map (fun a => (⟨a, !k.2⟩ : SortColumn F)) = .ok c ∧
      keyValues clock keys b = .ok cs' ∧ cs = c :: cs' := by
  rw [keyValues, List.mapM_cons] at h
  obtain ⟨c, hc, hrest⟩ := of_bind_ok _ _ _ h
  obtain ⟨cs', hcs', hpure⟩ := of_bind_ok _ _ _ hrest
  cases hpure
  exact ⟨c, cs', hc, hcs', rfl⟩

/-- How each key compares two rows, and whether it takes part in the sort. -/
def criteria (b : RecordBatch F) (keys : List (Expr F × Bool)) (cs : List (SortColumn F))
    (i j : Nat) : List (Bool × Ordering) :=
  List.zipWith (fun k c => ((sortColumn? b k).isSome, c.cmp i j)) keys cs

/-- All criteria are those of the key values, and the ones that take part those of the columns the
operator sorts by. -/
theorem criteria_eq (clock : Int64) (b : RecordBatch F) (keys : List (Expr F × Bool))
    (cs : List (SortColumn F)) (h : keyValues clock keys b = .ok cs) (i j : Nat) :
    lex ((criteria b keys cs i j).map Prod.snd) = columnsCmp cs i j ∧
      lex (kept (criteria b keys cs i j)) = columnsCmp (sortColumns keys b) i j := by
  induction keys generalizing cs with
  | nil =>
    cases h
    exact ⟨rfl, rfl⟩
  | cons k keys ih =>
    obtain ⟨c, cs', hc, hcs', rfl⟩ := keyValues_cons clock b k keys cs h
    obtain ⟨hall, hkept⟩ := ih cs' hcs'
    refine ⟨congrArg (c.cmp i j).then hall, ?_⟩
    cases hk : sortColumn? b k with
    | none =>
      rw [sortColumns_eq, List.filterMap_cons_none hk, ← sortColumns_eq, ← hkept]
      simp [criteria, kept, hk]
    | some d =>
      have hd : d = c := by
        rw [evalExpr_of_sortColumn clock b k d hk] at hc
        exact Except.ok.inj hc
      subst hd
      rw [sortColumns_eq, List.filterMap_cons_some hk, ← sortColumns_eq]
      have hcons : kept (criteria b (k :: keys) (d :: cs') i j) =
          d.cmp i j :: kept (criteria b keys cs' i j) := by
        simp [criteria, kept, hk]
      rw [hcons]
      exact congrArg (d.cmp i j).then hkept

/-! ### What is emitted -/

def takeSorted (indices : List Nat) (d : SortColumn F) : SortColumn F :=
  ⟨takeColumn indices d.values, d.descending⟩

omit [FloatOps F] in
theorem sortColumns_take (b out : RecordBatch F) (indices : List Nat)
    (keys : List (Expr F × Bool)) (hschema : out.schema = b.schema)
    (hcols : out.columns = b.columns.map (takeColumn indices)) :
    sortColumns keys out = (sortColumns keys b).map (takeSorted indices) := by
  have hcolumn : ∀ name, out.column? name = (b.column? name).map (takeColumn indices) := by
    intro name
    simp only [RecordBatch.column?, hschema, hcols, List.getElem?_map, Option.map_bind]
    rfl
  rw [sortColumns_eq, sortColumns_eq, List.map_filterMap]
  apply List.filterMap_congr
  intro k _
  unfold sortColumn?
  split
  · rw [hcolumn, Option.map_map, Option.map_map]
    rfl
  · rfl

theorem placeCmp_take {α : Type} (cmp : α → α → Ordering) (xs : List α) (indices : List Nat)
    (hin : ∀ i ∈ indices, i < xs.length) (p q i j : Nat) (hp : indices[p]? = some i)
    (hq : indices[q]? = some j) :
    placeCmp cmp (indices.filterMap (xs[·]?)) p q = placeCmp cmp xs i j := by
  rw [placeCmp, placeCmp, getElem?_filterMap_get xs indices hin p i hp,
    getElem?_filterMap_get xs indices hin q j hq]

theorem columnsCmp_take (indices : List Nat) (n : Nat) (hin : ∀ i ∈ indices, i < n)
    (cs : List (SortColumn F)) (hcs : ∀ c ∈ cs, c.values.len = n) (p q i j : Nat)
    (hp : indices[p]? = some i) (hq : indices[q]? = some j) :
    columnsCmp (cs.map (takeSorted indices)) p q = columnsCmp cs i j := by
  have hcmp : ∀ c ∈ cs, (takeSorted indices c).cmp p q = c.cmp i j := by
    intro c hc
    apply placeCmp_take _ _ indices ?_ p q i j hp hq
    intro k hk
    have hn : c.values.slots.length = n := hcs c hc
    exact hn ▸ hin k hk
  rw [columnsCmp, columnsCmp, List.map_map]
  exact congrArg lex (List.map_congr_left hcmp)

omit [FloatOps F] in
theorem len_sortColumns (keys : List (Expr F × Bool)) (b : RecordBatch F) :
    ∀ c ∈ sortColumns keys b, c.values.len = b.numRows := by
  intro c hc
  rw [sortColumns_eq] at hc
  obtain ⟨k, -, hk⟩ := List.mem_filterMap.mp hc
  unfold sortColumn? at hk
  split at hk
  · obtain ⟨a, ha, rfl⟩ := Option.map_eq_some_iff.mp hk
    obtain ⟨i, -, hi⟩ := Option.bind_eq_some_iff.mp ha
    exact b.sized a (List.mem_of_getElem? hi)
  · cases hk

/-- The batch emitted for the concatenation `c` of the child's batches. -/
structure Emitted (keys : List (Expr F × Bool)) (c out : RecordBatch F) : Prop where
  rows : out.rows.Perm c.rows
  schema : out.schema = c.schema
  width : out.columns.length = c.columns.length
  sorted : ∀ i j, i < j → j < out.numRows → columnsCmp (sortColumns keys out) i j ≠ .gt

theorem emitted_take (lexsort : List (SortColumn F) → Res (List Nat)) (hlex : Lexsorts lexsort)
    (keys : List (Expr F × Bool)) (c out : RecordBatch F) (indices : List Nat)
    (hne : sortColumns keys c ≠ []) (hsort : lexsort (sortColumns keys c) = .ok indices)
    (htake : takeRecordBatch c indices = .ok out) : Emitted keys c out := by
  have hlen := len_sortColumns keys c
  obtain ⟨hperm, hpair⟩ := hlex _ c.numRows indices hne hlen hsort
  obtain ⟨hin, hnum, hschema, hcols⟩ := takeRecordBatch_ok c out indices htake
  refine ⟨rows_takeRecordBatch c out indices htake hperm, hschema,
    by rw [hcols, List.length_map], ?_⟩
  intro i j hij hj
  have hj' : j < indices.length := hnum ▸ hj
  have hi' : i < indices.length := Nat.lt_trans hij hj'
  rw [sortColumns_take c out indices keys hschema hcols,
    columnsCmp_take indices c.numRows hin _ hlen i j indices[i] indices[j]
      (List.getElem?_eq_getElem hi') (List.getElem?_eq_getElem hj')]
  exact List.pairwise_iff_getElem.mp hpair i j hi' hj' hij

theorem materialize_ok (lexsort : List (SortColumn F) → Res (List Nat)) (hlex : Lexsorts lexsort)
    (keys : List (Expr F × Bool)) (bs outs : List (RecordBatch F))
    (h : materialize lexsort keys bs = .ok outs) :
    (bs = [] ∧ outs = []) ∨
      ∃ first c out, bs.head? = some first ∧ concatBatches first.schema bs = .ok c ∧
        outs = [out] ∧ Emitted keys c out := by
  obtain hnone | ⟨first, c, out, hhead, hc, hout, hcases⟩ :=
    materialize_cases lexsort keys bs outs h
  · exact .inl hnone
  · refine .inr ⟨first, c, out, hhead, hc, hout, ?_⟩
    obtain ⟨hnone, rfl⟩ | ⟨hne, indices, hsort, htake⟩ := hcases
    · refine ⟨.refl _, rfl, rfl, ?_⟩
      intro i j _ _
      simp [hnone, columnsCmp, lex]
    · exact emitted_take lexsort hlex keys c out indices hne hsort htake

/-! ### The law -/

omit [FloatOps F] in
theorem length_of_mem_rows (b : RecordBatch F) (row : List (Cell F)) (h : row ∈ b.rows) :
    row.length = b.columns.length := by
  have htyped := congrArg List.length (rowsOf_typed b.numRows b.columns row h)
  rw [List.length_map, List.length_map] at htyped
  exact htyped

omit [FloatOps F] in
theorem perm_concat_iff (schema : List Field) (bs : List (RecordBatch F)) (c : RecordBatch F)
    (hc : concatBatches schema bs = .ok c) :
    c.rows.Perm (resultRows bs) ↔
      ∀ b ∈ bs, 0 < b.numRows → b.columns.length = c.columns.length := by
  obtain ⟨-, hwidth, hrows⟩ := concatBatches_ok schema bs c hc
  constructor
  · intro hperm b hb hpos
    rw [← length_rows b] at hpos
    obtain ⟨row, hrow⟩ := List.exists_mem_of_length_pos hpos
    have hmem : row ∈ c.rows := hperm.mem_iff.mpr (List.mem_flatMap_of_mem hb hrow)
    rw [← length_of_mem_rows b row hrow, length_of_mem_rows c row hmem]
  · intro hall
    have hid : (resultRows bs).map (List.take schema.length) = resultRows bs := by
      have htake : ∀ row ∈ resultRows bs, row.take schema.length = row := by
        intro row hrow
        obtain ⟨b, hb, hrow'⟩ := List.mem_flatMap.mp hrow
        have hpos : 0 < b.numRows := by
          rw [← length_rows b]
          exact List.length_pos_of_mem hrow'
        apply List.take_of_length_le
        rw [length_of_mem_rows b row hrow', hall b hb hpos, hwidth]
      rw [List.map_congr_left htake, List.map_id']
    rw [hrows, hid]

/-- Of any two rows that the keys before it hold equal, a key that does not take part in the sort
has them in order. -/
def IgnoredInOrder (clock : Int64) (keys : List (Expr F × Bool)) (b : RecordBatch F) : Prop :=
  ∀ i j, i < j → j < b.numRows →
    ∃ cs, keyValues clock keys b = .ok cs ∧
      ∀ (p : Nat) (k : Expr F × Bool) (c : SortColumn F), keys[p]? = some k → cs[p]? = some c →
        sortColumn? b k = none → (∀ q < p, ∀ d, cs[q]? = some d → d.cmp i j = .eq) →
          c.cmp i j ≠ .gt

theorem criteria_iff (b : RecordBatch F) (keys : List (Expr F × Bool))
    (cs : List (SortColumn F)) (i j : Nat) :
    Unopposed (criteria b keys cs i j) ↔
      ∀ (p : Nat) (k : Expr F × Bool) (c : SortColumn F), keys[p]? = some k → cs[p]? = some c →
        sortColumn? b k = none → (∀ q < p, ∀ d, cs[q]? = some d → d.cmp i j = .eq) →
          c.cmp i j ≠ .gt := by
  constructor
  · intro hall p k c hk hc hnone hq
    apply hall p (c.cmp i j)
    · exact List.getElem?_zipWith_eq_some.mpr ⟨k, c, hk, hc, by rw [hnone]; rfl⟩
    · intro q hlt e he
      obtain ⟨k', d, -, hd, hpair⟩ := List.getElem?_zipWith_eq_some.mp he
      rw [← hpair]
      exact hq q hlt d hd
  · intro hall p o hp hq
    obtain ⟨k, c, hk, hc, hpair⟩ := List.getElem?_zipWith_eq_some.mp hp
    obtain ⟨hnone, rfl⟩ := Prod.mk.inj hpair
    apply hall p k c hk hc (Option.isSome_eq_false_iff.mp hnone |> Option.isNone_iff_eq_none.mp)
    intro q hlt d hd
    obtain ⟨hplt, -⟩ := List.getElem?_eq_some_iff.mp hk
    have hkq : keys[q]? = some keys[q] := List.getElem?_eq_getElem (Nat.lt_trans hlt hplt)
    exact hq q hlt _ (List.getElem?_zipWith_eq_some.mpr ⟨_, d, hkq, hd, rfl⟩)

theorem sortedBy_iff (clock : Int64) (keys : List (Expr F × Bool)) (b : RecordBatch F)
    (h : ∀ i j, i < j → j < b.numRows → columnsCmp (sortColumns keys b) i j ≠ .gt) :
    SortedBy clock keys b ↔ IgnoredInOrder clock keys b := by
  have hpair : ∀ i j, i < j → j < b.numRows → ∀ cs, keyValues clock keys b = .ok cs →
      (columnsCmp cs i j ≠ .gt ↔
        ∀ (p : Nat) (k : Expr F × Bool) (c : SortColumn F), keys[p]? = some k → cs[p]? = some c →
          sortColumn? b k = none → (∀ q < p, ∀ d, cs[q]? = some d → d.cmp i j = .eq) →
            c.cmp i j ≠ .gt) := by
    intro i j hij hj cs hcs
    obtain ⟨hall, hkept⟩ := criteria_eq clock b keys cs hcs i j
    rw [← hall, lex_ne_gt_iff _ (by rw [hkept]; exact h i j hij hj), criteria_iff]
  constructor
  · intro hsorted i j hij hj
    obtain ⟨cs, hcs, hcmp⟩ := hsorted i j hij hj
    exact ⟨cs, hcs, (hpair i j hij hj cs hcs).mp hcmp⟩
  · intro hignored i j hij hj
    obtain ⟨cs, hcs, hcmp⟩ := hignored i j hij hj
    exact ⟨cs, hcs, (hpair i j hij hj cs hcs).mpr hcmp⟩

omit [FloatOps F] in
theorem collect_sortOperator (lexsort : List (SortColumn F) → Res (List Nat))
    (keys : List (Expr F × Bool)) (child : Pull Stop (RecordBatch F))
    (outs : List (RecordBatch F)) (h : (sortOperator lexsort keys child).collect = .ok outs) :
    ∃ bs, child.collect = .ok bs ∧ materialize lexsort keys bs = .ok outs := by
  unfold sortOperator blocking at h
  split at h
  · rename_i outs' hrun
    rw [Pull.collect_ofList] at h
    cases h
    exact of_bind_ok _ _ _ hrun
  · cases h

theorem emitted_law (clock : Int64) (keys : List (Expr F × Bool)) (schema : List Field)
    (bs : List (RecordBatch F)) (c out : RecordBatch F) (hc : concatBatches schema bs = .ok c)
    (he : Emitted keys c out) :
    ((resultRows [out]).Perm (resultRows bs) ↔
      ∀ b ∈ bs, 0 < b.numRows → b.columns.length = out.columns.length) ∧
    (SortedBy clock keys out ↔ IgnoredInOrder clock keys out) := by
  have hrows : resultRows [out] = out.rows := List.flatMap_singleton _ _
  refine ⟨?_, sortedBy_iff clock keys out he.sorted⟩
  rw [hrows, he.width, ← perm_concat_iff schema bs c hc]
  constructor
  · intro hperm
    exact he.rows.symm.trans hperm
  · intro hperm
    exact he.rows.trans hperm

theorem emitted_shape (keys : List (Expr F × Bool)) (first : RecordBatch F)
    (bs : List (RecordBatch F)) (c out : RecordBatch F)
    (hc : concatBatches first.schema bs = .ok c) (he : Emitted keys c out) :
    out.schema = first.schema ∧ out.columns.length = first.columns.length := by
  obtain ⟨hschema, hwidth, -⟩ := concatBatches_ok _ _ c hc
  have hlen := congrArg List.length first.typed
  rw [List.length_map, List.length_map] at hlen
  exact ⟨he.schema.trans hschema, by rw [he.width, hwidth, hlen]⟩

/-! ### Keys that are columns or constants -/

def NamesColumn (schema : List Field) (k : Expr F × Bool) : Prop :=
  ∃ table name, k.1 = .column table name ∧ (indexOf schema name).isSome = true

/-- The expression has one value in all rows, which equals itself. -/
def Constant : Expr F → Prop
  | .literal (.float f) => FloatOps.totalCmp f f = .eq
  | .literal _ | .now | .interval _ => True
  | _ => False

/-- No batch with rows is wider or narrower than the first, and every key is a column of the
first schema or constant. -/
def Orderable (keys : List (Expr F × Bool)) (bs : List (RecordBatch F)) : Prop :=
  ∀ first ∈ bs.head?,
    (∀ b ∈ bs, 0 < b.numRows → b.columns.length = first.columns.length) ∧
      ∀ k ∈ keys, NamesColumn first.schema k ∨ Constant k.1

omit [FloatOps F] in
theorem sortColumn_of_names (b : RecordBatch F) (k : Expr F × Bool)
    (h : NamesColumn b.schema k) : ∃ c, sortColumn? b k = some c := by
  obtain ⟨table, name, hk, hsome⟩ := h
  obtain ⟨i, hi⟩ := Option.isSome_iff_exists.mp hsome
  obtain ⟨hlt, -⟩ := List.findIdx?_eq_some_iff_getElem.mp hi
  have hlen := congrArg List.length b.typed
  rw [List.length_map, List.length_map] at hlen
  have hcolumn : b.column? name = some b.columns[i] := by
    rw [RecordBatch.column?, hi]
    exact List.getElem?_eq_getElem (hlen ▸ hlt)
  refine ⟨⟨b.columns[i], !k.2⟩, ?_⟩
  simp only [sortColumn?, hk, hcolumn, Option.map_some]

theorem namesColumn_of_eval (clock : Int64) (b : RecordBatch F) (k : Expr F × Bool)
    (table : Option String) (name : String) (hk : k.1 = .column table name) (a : ArrayRef F)
    (h : evalExpr clock b k.1 = .ok a) : NamesColumn b.schema k := by
  rw [hk, evalExpr] at h
  split at h
  next c hc =>
    obtain ⟨i, hi, -⟩ := Option.bind_eq_some_iff.mp hc
    exact ⟨table, name, hk, by rw [hi]; rfl⟩
  next => cases h

theorem slotCmp_self {α : Type} (cmp : α → α → Ordering) (descending : Bool) (a : α)
    (h : cmp a a = .eq) : slotCmp cmp descending (.valid a) (.valid a) = .eq := by
  rw [slotCmp, h]
  cases descending <;> rfl

theorem placeCmp_replicate {α : Type} (cmp : α → α → Ordering) (x : α) (h : cmp x x = .eq)
    (n i j : Nat) : placeCmp cmp (List.replicate n x) i j = .eq := by
  unfold placeCmp
  split
  next y z hy hz =>
    rw [(List.mem_replicate.mp (List.mem_of_getElem? hy)).2,
      (List.mem_replicate.mp (List.mem_of_getElem? hz)).2, h]
  next => rfl

theorem cmp_literal (lit : Literal F) (h : Constant (.literal lit)) (n : Nat) (descending : Bool)
    (i j : Nat) : (⟨evalLiteral lit n, descending⟩ : SortColumn F).cmp i j = .eq := by
  have hself : ∀ {α : Type} [LT α] [DecidableLT α] [DecidableEq α] (a : α), ¬ a < a →
      compareOfLessAndEq a a = .eq := by
    intro α _ _ _ a hirrefl
    simp [compareOfLessAndEq, hirrefl]
  cases lit with
  | int m => exact placeCmp_replicate _ _ (slotCmp_self _ _ _ (hself m (Int64.lt_irrefl))) n i j
  | float f => exact placeCmp_replicate _ _ (slotCmp_self _ _ _ h) n i j
  | str t => exact placeCmp_replicate _ _ (slotCmp_self _ _ _ (hself t (String.lt_irrefl t))) n i j
  | bool t => exact placeCmp_replicate _ _ (slotCmp_self _ _ _ (hself t (Bool.lt_irrefl t))) n i j
  | null => exact placeCmp_replicate _ _ rfl n i j
  | intervalNs m =>
    exact placeCmp_replicate _ _ (slotCmp_self _ _ _ (hself m (Int64.lt_irrefl))) n i j

theorem eval_constant (clock : Int64) (b : RecordBatch F) (e : Expr F) (h : Constant e) :
    ∃ a, evalExpr clock b e = .ok a ∧
      ∀ descending i j, (⟨a, descending⟩ : SortColumn F).cmp i j = .eq := by
  cases e with
  | literal lit => exact ⟨_, by rw [evalExpr], cmp_literal lit h b.numRows⟩
  | now => exact ⟨_, by rw [evalExpr], cmp_literal (.int clock) trivial b.numRows⟩
  | interval ns => exact ⟨_, by rw [evalExpr], cmp_literal (.int ns) trivial b.numRows⟩
  | column | star | binOp | unaryOp | isNull | isNotNull | between | inList | like | function
  | timeBucket | rate | delta | histogramQuantile => exact h.elim

theorem keyValues_ok (clock : Int64) (keys : List (Expr F × Bool)) (b : RecordBatch F)
    (h : ∀ k ∈ keys, ∃ a, evalExpr clock b k.1 = .ok a) :
    ∃ cs, keyValues clock keys b = .ok cs := by
  induction keys with
  | nil => exact ⟨[], rfl⟩
  | cons k keys ih =>
    obtain ⟨a, ha⟩ := h k List.mem_cons_self
    obtain ⟨cs, hcs⟩ := ih fun k' hk' => h k' (List.mem_cons_of_mem k hk')
    refine ⟨⟨a, !k.2⟩ :: cs, ?_⟩
    rw [keyValues] at hcs ⊢
    rw [List.mapM_cons, ha, hcs]
    rfl

theorem keyValues_get (clock : Int64) (b : RecordBatch F) (keys : List (Expr F × Bool))
    (cs : List (SortColumn F)) (h : keyValues clock keys b = .ok cs) (p : Nat) (k : Expr F × Bool)
    (hk : keys[p]? = some k) :
    ∃ a, evalExpr clock b k.1 = .ok a ∧ cs[p]? = some ⟨a, !k.2⟩ := by
  induction keys generalizing cs p with
  | nil => cases hk
  | cons k' keys ih =>
    obtain ⟨c, cs', hc, hcs', rfl⟩ := keyValues_cons clock b k' keys cs h
    cases p with
    | zero =>
      cases hk
      obtain ⟨a, ha, rfl⟩ := map_ok hc
      exact ⟨a, ha, rfl⟩
    | succ p => exact ih cs' hcs' p hk

theorem ignoredInOrder_of_plain (clock : Int64) (keys : List (Expr F × Bool))
    (b : RecordBatch F) (h : ∀ k ∈ keys, NamesColumn b.schema k ∨ Constant k.1) :
    IgnoredInOrder clock keys b := by
  obtain ⟨cs, hcs⟩ := keyValues_ok clock keys b fun k hk => by
    obtain hname | hconst := h k hk
    · obtain ⟨c, hc⟩ := sortColumn_of_names b k hname
      obtain ⟨a, ha, -⟩ := map_ok (evalExpr_of_sortColumn clock b k c hc)
      exact ⟨a, ha⟩
    · obtain ⟨a, ha, -⟩ := eval_constant clock b k.1 hconst
      exact ⟨a, ha⟩
  intro i j _ _
  refine ⟨cs, hcs, ?_⟩
  intro p k c hk hc hnone _
  obtain hname | hconst := h k (List.mem_of_getElem? hk)
  · obtain ⟨d, hd⟩ := sortColumn_of_names b k hname
    rw [hd] at hnone
    cases hnone
  · obtain ⟨a, ha, hcmp⟩ := eval_constant clock b k.1 hconst
    obtain ⟨a', ha', hc'⟩ := keyValues_get clock b keys cs hcs p k hk
    rw [ha] at ha'
    cases ha'
    rw [hc] at hc'
    cases hc'
    rw [hcmp]
    simp

theorem plain_of_sortedBy (clock : Int64) (keys : List (Expr F × Bool)) (b : RecordBatch F)
    (hrows : 1 < b.numRows) (h : SortedBy clock keys b)
    (hkeys : ∀ k ∈ keys, (∃ table name, k.1 = .column table name) ∨ Constant k.1) :
    ∀ k ∈ keys, NamesColumn b.schema k ∨ Constant k.1 := by
  intro k hk
  obtain ⟨cs, hcs, -⟩ := h 0 1 Nat.zero_lt_one hrows
  obtain ⟨p, hp⟩ := List.getElem?_of_mem hk
  obtain ⟨a, ha, -⟩ := keyValues_get clock b keys cs hcs p k hp
  obtain ⟨table, name, hname⟩ | hconst := hkeys k hk
  · exact Or.inl (namesColumn_of_eval clock b k table name hname a ha)
  · exact Or.inr hconst

/-- Over batches of one width, ORDER BY columns of the first schema and constants keeps the law.
Where the operator does not fail on two rows or more, column names and constants as keys keep it
only so. -/
theorem order_by_columns (lexsort : List (SortColumn F) → Res (List Nat)) (hlex : Lexsorts lexsort)
    (clock : Int64) (keys : List (Expr F × Bool)) (child : Pull Stop (RecordBatch F)) :
    ((∀ bs, child.collect = .ok bs → Orderable keys bs) → OrderLaw lexsort clock keys child) ∧
    ∀ bs outs, child.collect = .ok bs → (sortOperator lexsort keys child).collect = .ok outs →
      1 < (resultRows bs).length →
      (∀ k ∈ keys, (∃ table name, k.1 = .column table name) ∨ Constant k.1) →
      (OrderLaw lexsort clock keys child ↔ Orderable keys bs) := by
  have hsuff : (∀ bs, child.collect = .ok bs → Orderable keys bs) →
      OrderLaw lexsort clock keys child := by
    intro hcond outs houts
    obtain ⟨bs, hbs, hmat⟩ := collect_sortOperator lexsort keys child outs houts
    refine ⟨bs, hbs, ?_⟩
    obtain ⟨rfl, rfl⟩ | ⟨first, c, out, hhead, hc, rfl, he⟩ :=
      materialize_ok lexsort hlex keys bs _ hmat
    · exact ⟨.refl _, Nat.zero_le 1, by simp⟩
    · obtain ⟨hwide, hkeys⟩ := hcond bs hbs first hhead
      obtain ⟨hschema, hwidth⟩ := emitted_shape keys first bs c out hc he
      obtain ⟨hrows, hsorted⟩ := emitted_law clock keys first.schema bs c out hc he
      refine ⟨hrows.mpr (hwidth ▸ hwide), Nat.le_refl 1, ?_⟩
      intro b hb
      rw [List.mem_singleton.mp hb]
      exact hsorted.mpr (ignoredInOrder_of_plain clock keys out (hschema ▸ hkeys))
  refine ⟨hsuff, ?_⟩
  intro bs outs hbs houts hmany hplain
  constructor
  · intro hlaw first hfirst
    obtain ⟨bs₁, hbs₁, hperm, -, hall⟩ := hlaw outs houts
    obtain ⟨bs₂, hbs₂, hmat⟩ := collect_sortOperator lexsort keys child outs houts
    rw [hbs] at hbs₁ hbs₂
    cases hbs₁
    cases hbs₂
    obtain ⟨hnil, -⟩ | ⟨first', c, out, hhead, hc, rfl, he⟩ :=
      materialize_ok lexsort hlex keys bs _ hmat
    · rw [hnil] at hfirst
      cases hfirst
    · rw [hfirst] at hhead
      cases hhead
      obtain ⟨hschema, hwidth⟩ := emitted_shape keys first bs c out hc he
      obtain ⟨hrows, -⟩ := emitted_law clock keys first.schema bs c out hc he
      have hnum : 1 < out.numRows := by
        have hlen := hperm.length_eq
        rw [resultRows, List.flatMap_singleton, length_rows] at hlen
        rwa [hlen]
      refine ⟨hwidth ▸ hrows.mp hperm, ?_⟩
      rw [← hschema]
      exact plain_of_sortedBy clock keys out hnum (hall out List.mem_cons_self) hplain
  · intro hcond
    apply hsuff
    intro bs' hbs'
    rw [hbs] at hbs'
    cases hbs'
    exact hcond

/-! ### Runs -/

/-- A `lexsort_to_indices`: sort the rows by the order, and fail if that did not help. -/
def checkedSort (cs : List (SortColumn F)) : Res (List Nat) :=
  let indices := (List.range ((cs.head?.map fun c => c.values.len).getD 0)).insertionSort
    fun i j => columnsCmp cs i j ≠ .gt
  if indices.Pairwise fun i j => columnsCmp cs i j ≠ .gt then .ok indices else .error .panic

theorem lexsorts_checkedSort : Lexsorts (checkedSort : List (SortColumn F) → Res (List Nat)) := by
  intro cs n indices hne hlen hsort
  simp only [checkedSort] at hsort
  split at hsort
  · rename_i hpair
    cases hsort
    refine ⟨?_, hpair⟩
    cases cs with
    | nil => exact absurd rfl hne
    | cons c cs =>
      have hn : c.values.len = n := hlen c List.mem_cons_self
      simp only [List.head?_cons, Option.map_some, Option.getD_some, hn]
      exact List.perm_insertionSort _ _
  · cases hsort

def numbers (ns : List Int64) : RecordBatch Exact where
  schema := [⟨"n", .int64, true⟩]
  numRows := ns.length
  columns := [⟨.int64, ns.map .valid⟩]
  typed := rfl
  sized := by simp [ArrayRef.len]
  nonNull := by simp

/-- `ORDER BY n DESC, 1` over two batches out of order: the law holds, and the operator does not
fail. -/
theorem order_by_columns_number :
    OrderLaw checkedSort 0 [(.column none "n", false), (.literal (.int 1), true)]
        (Pull.ofList [numbers [7, 3], numbers [5]]) ∧
      (sortOperator checkedSort [(.column none "n", false), (.literal (.int 1), true)]
        (Pull.ofList [numbers [7, 3], numbers [5]])).collect = .ok [numbers [7, 5, 3]] := by
  refine ⟨((order_by_columns checkedSort lexsorts_checkedSort 0 _ _).2 _ _ rfl rfl
    (by decide) ?_).mpr ?_, rfl⟩
  · intro k hk
    simp only [List.mem_cons, List.not_mem_nil, or_false] at hk
    obtain rfl | rfl := hk
    · exact Or.inl ⟨none, "n", rfl⟩
    · exact Or.inr trivial
  · intro first hfirst
    cases hfirst
    refine ⟨by simp [numbers], ?_⟩
    intro k hk
    simp only [List.mem_cons, List.not_mem_nil, or_false] at hk
    obtain rfl | rfl := hk
    · exact Or.inl ⟨none, "n", rfl, rfl⟩
    · exact Or.inr trivial

/-- `ORDER BY -n` leaves the rows as they are, against the order of `-n`; and `ORDER BY nosuch`
returns them although there is no such column. -/
theorem order_by_ignored :
    (sortOperator checkedSort [(.unaryOp .neg (.column none "n"), true)]
        (Pull.ofList [numbers [1, 2]])).collect = .ok [numbers [1, 2]] ∧
      keyValues 0 [(.unaryOp .neg (.column none "n"), true)] (numbers [1, 2]) =
        .ok [⟨⟨.int64, [.valid (-1), .valid (-2)]⟩, false⟩] ∧
      columnsCmp [(⟨⟨.int64, [.valid (-1), .valid (-2)]⟩, false⟩ : SortColumn Exact)] 0 1 = .gt ∧
    (sortOperator checkedSort [(.column none "nosuch", true)]
        (Pull.ofList [numbers [2, 1]])).collect = .ok [numbers [2, 1]] ∧
      evalExpr 0 (numbers [2, 1]) (.column none "nosuch") =
        execution "column 'nosuch' not found" :=
  ⟨rfl, rfl, rfl, rfl, rfl⟩

end InfraLens.Query
