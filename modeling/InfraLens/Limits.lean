import InfraLens.Pushdown

/-! LIMIT and OFFSET of statements over one table. The limit acts twice: in the scan, which
stops keeping batches once they have that many rows, and in an operator on top of the plan. -/
namespace InfraLens.Query
open Schema Arrow Model LibPull LibExcept

variable {F : Type}

/-! ### The optimized plan of a statement -/

def SelectStatement.grouped (sel : SelectStatement F) : Bool :=
  !((extractAggregates sel.projections).isEmpty && sel.groupBy.isEmpty)

def SelectStatement.pushed (clock : Int64) (sel : SelectStatement F) : Option (Expr F) :=
  (if sel.grouped then sel.filter else sel.having.or sel.filter).map (foldExpr clock)

def SelectStatement.scanOp (clock : Int64) (catalog : Catalog) (sel : SelectStatement F) :
    ScanOp F :=
  pruneScan catalog ⟨sel.table.name, sel.pushed clock, none, [], sel.limit⟩

section Build
variable [FloatOps F]

theorem loadBatches_projection (env : Env F) (catalog : Catalog) (op : ScanOp F)
    (columns : Option (List String)) :
    loadBatches env (pruneScan catalog { op with projection := columns }) =
      loadBatches env (pruneScan catalog op) := by
  unfold pruneScan
  cases op.predicate.bind extractTimeRange with
  | none => rfl
  | some range => rfl

theorem build_pushProjection (env : Env F) (catalog : Catalog) (columns : List String)
    (plan : LogicalPlan F) :
    build env (partitionPrune catalog (pushProjection columns plan)) =
      build env (partitionPrune catalog plan) := by
  cases plan with
  | scan op =>
    rw [pushProjection, partitionPrune, build, partitionPrune, partitionPrune, build, build,
      loadBatches_projection]
  | _ => rfl

/-- The aggregate and the HAVING clause over it; without an aggregate that clause is in the
scan. -/
def groupedPart (env : Env F) (sel : SelectStatement F) (child : Pull Stop (RecordBatch F)) :
    Pull Stop (RecordBatch F) :=
  if sel.grouped then
    let aggregated := aggregateOperator sel.groupBy (extractAggregates sel.projections) child
    match sel.having with
    | some p => filterOperator env.clock (foldExpr env.clock p) aggregated
    | none => aggregated
  else child

/-- The operators over the scan, up to the limit. -/
def upper (env : Env F) (sel : SelectStatement F) (child : Pull Stop (RecordBatch F)) :
    Pull Stop (RecordBatch F) :=
  if sel.orderBy.isEmpty then groupedPart env sel child
  else
    sortOperator env.lexsort (sel.orderBy.map fun o => (o.expr, o.asc)) (groupedPart env sel child)

omit [FloatOps F] in
def limited (sel : SelectStatement F) (child : Pull Stop (RecordBatch F)) :
    Pull Stop (RecordBatch F) :=
  match sel.limit with
  | some n => limitOperator n.toNat (sel.offset.getD 0).toNat child
  | none => child

theorem build_project (env : Env F) (catalog : Catalog) (sel : SelectStatement F)
    (plan : LogicalPlan F) :
    build env (optimize env.clock catalog (planProject sel plan)) =
      build env (optimize env.clock catalog plan) := by
  simp only [planProject]
  split
  · rfl
  · exact build_pushProjection env catalog _ _

theorem build_having (env : Env F) (catalog : Catalog) (sel : SelectStatement F) :
    build env (optimize env.clock catalog (planFilter sel.having (planAggregate sel
        (planFilter sel.filter (.scan (.of sel.table.name sel.limit)))))) =
      (loadBatches env (sel.scanOp env.clock catalog)).map fun bs =>
        groupedPart env sel (Pull.ofList bs) := by
  unfold planAggregate
  cases hg : sel.grouped with
  | false =>
    have hplain : ((extractAggregates sel.projections).isEmpty && sel.groupBy.isEmpty) = true := by
      rwa [SelectStatement.grouped, Bool.not_eq_false'] at hg
    have hpart : groupedPart env sel = id := by
      funext child
      simp [groupedPart, hg]
    have hscan : sel.scanOp env.clock catalog =
        pruneScan catalog ⟨sel.table.name, (sel.having.or sel.filter).map (foldExpr env.clock),
          none, [], sel.limit⟩ := by
      simp [SelectStatement.scanOp, SelectStatement.pushed, hg]
    simp only [hplain, if_true, hpart, hscan]
    cases sel.having with
    | none => cases sel.filter <;> rfl
    | some p => cases sel.filter <;> rfl
  | true =>
    have hplain : ((extractAggregates sel.projections).isEmpty && sel.groupBy.isEmpty) = false := by
      rwa [SelectStatement.grouped, Bool.not_eq_true'] at hg
    have hscan : sel.scanOp env.clock catalog = pruneScan catalog
        ⟨sel.table.name, sel.filter.map (foldExpr env.clock), none, [], sel.limit⟩ := by
      simp [SelectStatement.scanOp, SelectStatement.pushed, hg]
    have hbelow : build env (optimize env.clock catalog (.aggregate sel.groupBy
        (extractAggregates sel.projections)
          (planFilter sel.filter (.scan (.of sel.table.name sel.limit))))) =
        (loadBatches env (sel.scanOp env.clock catalog)).map fun bs =>
          aggregateOperator sel.groupBy (extractAggregates sel.projections) (Pull.ofList bs) := by
      rw [hscan]
      cases sel.filter with
      | none => exact map_map _ _ _
      | some q => exact map_map _ _ _
    simp only [hplain, Bool.false_eq_true, if_false, groupedPart, hg, if_true]
    cases hhaving : sel.having with
    | none => exact hbelow
    | some p =>
      change (build env (optimize env.clock catalog (.aggregate _ _ _))).map _ = _
      rw [hbelow, map_map]

theorem build_select (env : Env F) (catalog : Catalog) (sel : SelectStatement F)
    (hjoins : sel.joins = []) :
    build env (optimize env.clock catalog (planSelect sel)) =
      (loadBatches env (sel.scanOp env.clock catalog)).map fun bs =>
        limited sel (upper env sel (Pull.ofList bs)) := by
  have hsort : build env (optimize env.clock catalog (planSort sel (planProject sel
      (planFilter sel.having (planAggregate sel (planFilter sel.filter
        (.scan (.of sel.table.name sel.limit)))))))) =
      (loadBatches env (sel.scanOp env.clock catalog)).map fun bs =>
        upper env sel (Pull.ofList bs) := by
    unfold planSort upper
    cases sel.orderBy.isEmpty with
    | true => exact (build_project env catalog sel _).trans (build_having env catalog sel)
    | false =>
      change (build env (optimize env.clock catalog (planProject sel _))).map _ = _
      rw [build_project, build_having, map_map]
      rfl
  unfold planSelect planLimit limited
  rw [hjoins]
  cases hlimit : sel.limit with
  | none =>
    rw [hlimit] at hsort
    exact hsort
  | some n =>
    rw [hlimit] at hsort
    change (build env (optimize env.clock catalog (planSort sel _))).map _ = _
    rw [planJoins, List.foldl_nil, hsort, map_map]

end Build

/-! ### The limit operator -/

theorem limitStep_emit (n m : Nat) (b : RecordBatch F) (h : m < b.numRows) :
    ∃ c, limitStep (n, m) b = .ok ((n - (b.numRows - m), 0), some c) ∧
      c.rows = (b.rows.drop m).take n := by
  let batch := if 0 < m then b.slice m (b.numRows - m) else b
  have hrows : batch.rows = b.rows.drop m := by
    unfold batch
    split
    next =>
      have hfits : (b.rows.drop m).length ≤ b.numRows - m := by
        rw [List.length_drop, length_rows]
      rw [rows_slice, List.take_of_length_le hfits]
    next hzero =>
      obtain rfl : m = 0 := by omega
      rfl
  have hnum : batch.numRows = b.numRows - m := by
    rw [← length_rows, hrows, List.length_drop, length_rows]
  refine ⟨batch.slice 0 (min batch.numRows n), ?_, ?_⟩
  · have hleft : n - min batch.numRows n = n - (b.numRows - m) := by omega
    rw [← hleft]
    exact if_neg (Nat.not_le.mpr h)
  · rw [rows_slice, List.drop_zero, Nat.min_comm, ← length_rows, ← List.take_eq_take_min, hrows]

theorem limitOperator_rows (child : Pull Stop (RecordBatch F)) (n m : Nat)
    (out : List (RecordBatch F)) (h : child.collect = .ok out) :
    ∃ out', (limitOperator n m child).collect = .ok out' ∧
      resultRows out' = ((resultRows out).drop m).take n := by
  -- what remains and what to skip change from batch to batch
  induction child generalizing n m out with
  | done =>
    cases h
    exact ⟨[], rfl, by simp [resultRows]⟩
  | fail s => cases h
  | next b rest ih =>
    rw [Pull.collect] at h
    cases hrest : rest.collect with
    | error s =>
      rw [hrest] at h
      cases h
    | ok out₁ =>
      rw [hrest] at h
      cases h
      have hrows : resultRows (b :: out₁) = b.rows ++ resultRows out₁ := rfl
      have hlen := length_rows b
      rw [hrows, List.drop_append, hlen, limitOperator, Pull.transduce]
      by_cases hn : n = 0
      · subst hn
        exact ⟨[], rfl, by simp [resultRows]⟩
      · have hgo : ((n, m).1 == 0) = false := by simpa using hn
        rw [hgo]
        by_cases hskip : b.numRows ≤ m
        · have hstep : limitStep (n, m) b = .ok ((n, m - b.numRows), none) := if_pos hskip
          obtain ⟨out', hout', hrows'⟩ := ih n (m - b.numRows) out₁ hrest
          have hnil : b.rows.drop m = [] := List.drop_eq_nil_of_le (hlen ▸ hskip)
          refine ⟨out', ?_, ?_⟩
          · rw [hstep]
            exact hout'
          · rw [hrows', hnil, List.nil_append]
        · obtain ⟨c, hstep, hc⟩ := limitStep_emit n m b (Nat.lt_of_not_le hskip)
          obtain ⟨out', hout', hrows'⟩ := ih (n - (b.numRows - m)) 0 out₁ hrest
          have hzero : m - b.numRows = 0 := by omega
          refine ⟨c :: out', ?_, ?_⟩
          · rw [hstep]
            change (Pull.next c (limitOperator _ 0 rest)).collect = _
            rw [Pull.collect, hout']
          · change c.rows ++ resultRows out' = _
            rw [hc, hrows', hzero, List.drop_zero, List.take_append, List.length_drop, hlen]

/-! ### The limit of the scan -/

theorem retain_front (n total : Nat) (bs : List (RecordBatch F)) : retain n total bs <+: bs := by
  rw [retain_eq_cut]
  exact LibCut.cut_front _ n total bs

theorem resultRows_front (as bs : List (RecordBatch F)) (h : as <+: bs) :
    resultRows as <+: resultRows bs := by
  obtain ⟨rest, rfl⟩ := h
  exact ⟨resultRows rest, List.flatMap_append.symm⟩

theorem retain_enough (n total : Nat) (bs : List (RecordBatch F)) :
    min (total + (resultRows bs).length) n ≤ total + (resultRows (retain n total bs)).length := by
  induction bs generalizing total with
  | nil => exact Nat.min_le_left _ _
  | cons b bs ih =>
    rw [retain]
    split
    next hfull => omega
    next =>
      have hrest := ih (total + b.numRows)
      rw [length_resultRows_cons, length_resultRows_cons]
      omega

theorem take_drop_front {α : Type} (xs ys : List α) (m n : Nat) (h : xs <+: ys) :
    (xs.drop m).take n = (ys.drop m).take n ↔
      n = 0 ∨ ys.length ≤ m ∨ min ys.length (m + n) ≤ xs.length := by
  have hle := h.length_le
  constructor
  · intro he
    have hlen := congrArg List.length he
    simp only [List.length_take, List.length_drop] at hlen
    omega
  · intro hc
    have hpre : (xs.drop m).take n <+: (ys.drop m).take n := (h.drop m).take n
    refine hpre.eq_of_length ?_
    simp only [List.length_take, List.length_drop]
    omega

/-! ### LIMIT and OFFSET of a statement -/

def SelectStatement.unlimited (sel : SelectStatement F) : SelectStatement F :=
  { sel with limit := none, offset := none }

def SelectStatement.skip (sel : SelectStatement F) : Nat := (sel.offset.getD 0).toNat

def SelectStatement.window {ρ : Type} (sel : SelectStatement F) (rows : List ρ) : List ρ :=
  match sel.limit with
  | some n => (rows.drop sel.skip).take n.toNat
  | none => rows.drop sel.skip

def SelectStatement.Streaming (sel : SelectStatement F) : Prop :=
  sel.grouped = false ∧ sel.orderBy = []

section Law
variable [FloatOps F]

theorem loadBatches_limit (env : Env F) (op : ScanOp F) (limit : Option UInt64) :
    loadBatches env { op with limit := limit } =
      (loadBatches env { op with limit := none }).map (retainLimit limit) := by
  unfold loadBatches
  cases signalForTable op.table with
  | error s => rfl
  | ok signal =>
    change (loadAll env.clock op.predicate _ >>= fun all => pure (retainLimit limit all)) =
      (loadAll env.clock op.predicate _ >>= fun all => pure all).map (retainLimit limit)
    rw [map_of_bind]
    rfl

omit [FloatOps F] in
theorem pruneScan_limit (catalog : Catalog) (op : ScanOp F) (limit : Option UInt64) :
    pruneScan catalog { op with limit := limit } =
      { pruneScan catalog op with limit := limit } := by
  unfold pruneScan
  cases op.predicate.bind extractTimeRange with
  | none => rfl
  | some range => rfl

/-- What the scan of the statement loads and selects, before its limit. -/
def stored (env : Env F) (catalog : Catalog) (sel : SelectStatement F) :
    Res (List (RecordBatch F)) :=
  loadBatches env (sel.unlimited.scanOp env.clock catalog)

theorem loadBatches_scanOp (env : Env F) (catalog : Catalog) (sel : SelectStatement F) :
    loadBatches env (sel.scanOp env.clock catalog) =
      (stored env catalog sel).map (retainLimit sel.limit) := by
  rw [stored, SelectStatement.scanOp, SelectStatement.scanOp]
  change loadBatches env (pruneScan catalog { (⟨sel.table.name, sel.pushed env.clock, none, [],
      none⟩ : ScanOp F) with limit := sel.limit }) = _
  rw [pruneScan_limit, loadBatches_limit, ← pruneScan_limit]
  rfl

theorem execute_select (env : Env F) (catalog : Catalog) (sel : SelectStatement F)
    (hjoins : sel.joins = []) :
    execute env catalog sel = stored env catalog sel >>= fun bs =>
      (limited sel (upper env sel (Pull.ofList (retainLimit sel.limit bs)))).collect := by
  rw [execute, executePlan, build_select env catalog sel hjoins, loadBatches_scanOp, map_map]
  cases stored env catalog sel with
  | error s => rfl
  | ok bs => rfl

/-- The rows of the statement are those of the statement without LIMIT and OFFSET, cut. -/
def LimitLaw (env : Env F) (catalog : Catalog) (sel : SelectStatement F) : Prop :=
  ∀ out, execute env catalog sel.unlimited = .ok out →
    ∃ out', execute env catalog sel = .ok out' ∧ resultRows out' = sel.window (resultRows out)

/-- The operators return the window of these rows, from the batches the scan keeps. -/
def Cut (env : Env F) (sel : SelectStatement F) (bs out : List (RecordBatch F)) : Prop :=
  ∃ out', (limited sel (upper env sel (Pull.ofList (retainLimit sel.limit bs)))).collect =
    .ok out' ∧ resultRows out' = sel.window (resultRows out)

theorem limitLaw_iff (env : Env F) (catalog : Catalog) (sel : SelectStatement F)
    (hjoins : sel.joins = []) :
    LimitLaw env catalog sel ↔ ∀ bs, stored env catalog sel = .ok bs →
      ∀ out, (upper env sel (Pull.ofList bs)).collect = .ok out → Cut env sel bs out := by
  unfold LimitLaw
  rw [execute_select env catalog sel hjoins, execute_select env catalog sel.unlimited hjoins]
  change (∀ out, (stored env catalog sel >>= fun bs =>
    (upper env sel (Pull.ofList bs)).collect) = .ok out → _) ↔ _
  cases stored env catalog sel with
  | error s =>
    constructor
    · intro _ bs hbs
      cases hbs
    · intro _ out hout
      cases hout
  | ok bs =>
    constructor
    · intro h bs' hbs'
      cases hbs'
      exact h
    · intro h
      exact h bs rfl

/-- Without LIMIT: no row is to be skipped, or there is none. With LIMIT: no row is asked for,
or the scan cuts nothing, or no operator waits for all rows and the scan keeps the rows up to the
end of the window. -/
def LimitSafe (env : Env F) (catalog : Catalog) (sel : SelectStatement F) : Prop :=
  ∀ bs, stored env catalog sel = .ok bs →
    match sel.limit with
    | none => sel.skip = 0 ∨
        ∀ out, (upper env sel (Pull.ofList bs)).collect = .ok out → resultRows out = []
    | some n => n.toNat = 0 ∨ retain n.toNat 0 bs = bs ∨ sel.Streaming ∧
        ((resultRows bs).length ≤ sel.skip ∨ min (resultRows bs).length (sel.skip + n.toNat) ≤
          (resultRows (retain n.toNat 0 bs)).length)

theorem upper_streaming (env : Env F) (sel : SelectStatement F) (h : sel.Streaming)
    (child : Pull Stop (RecordBatch F)) : upper env sel child = child := by
  obtain ⟨hgrouped, horder⟩ := h
  simp [upper, groupedPart, hgrouped, horder]

omit [FloatOps F] in
theorem eq_drop_iff {α : Type} (xs : List α) (m : Nat) : xs = xs.drop m ↔ m = 0 ∨ xs = [] := by
  constructor
  · intro h
    have hlen := congrArg List.length h
    rw [List.length_drop] at hlen
    have hcases : m = 0 ∨ xs.length = 0 := by omega
    exact hcases.imp_right List.eq_nil_of_length_eq_zero
  · intro h
    cases h with
    | inl hm => rw [hm, List.drop_zero]
    | inr hnil => rw [hnil, List.drop_nil]

omit [FloatOps F] in
theorem limitOperator_zero (m : Nat) (child : Pull Stop (RecordBatch F)) :
    (limitOperator 0 m child).collect = .ok [] := by
  cases child <;> rfl

theorem cut_none_iff (env : Env F) (sel : SelectStatement F) (bs out : List (RecordBatch F))
    (hlimit : sel.limit = none) (hout : (upper env sel (Pull.ofList bs)).collect = .ok out) :
    Cut env sel bs out ↔ sel.skip = 0 ∨ resultRows out = [] := by
  rw [← eq_drop_iff]
  simp [Cut, limited, retainLimit, SelectStatement.window, hlimit, hout]

theorem cut_zero (env : Env F) (sel : SelectStatement F) (bs out : List (RecordBatch F))
    (n : UInt64) (hlimit : sel.limit = some n) (hn : n.toNat = 0) : Cut env sel bs out := by
  refine ⟨[], ?_, ?_⟩
  · simp only [limited, hlimit, hn]
    exact limitOperator_zero _ _
  · simp [SelectStatement.window, hlimit, hn, resultRows]

theorem cut_whole (env : Env F) (sel : SelectStatement F) (bs out : List (RecordBatch F))
    (n : UInt64) (hlimit : sel.limit = some n) (hkeep : retain n.toNat 0 bs = bs)
    (hout : (upper env sel (Pull.ofList bs)).collect = .ok out) : Cut env sel bs out := by
  simp only [Cut, limited, retainLimit, SelectStatement.window, hlimit, hkeep]
  exact limitOperator_rows _ n.toNat sel.skip out hout

theorem cut_streaming_iff (env : Env F) (sel : SelectStatement F) (bs : List (RecordBatch F))
    (n : UInt64) (hlimit : sel.limit = some n) (hs : sel.Streaming) :
    Cut env sel bs bs ↔ n.toNat = 0 ∨ (resultRows bs).length ≤ sel.skip ∨
      min (resultRows bs).length (sel.skip + n.toNat) ≤
        (resultRows (retain n.toNat 0 bs)).length := by
  rw [← take_drop_front _ _ _ _ (resultRows_front _ _ (retain_front n.toNat 0 bs))]
  obtain ⟨kept, hkept, hrows⟩ := limitOperator_rows (Pull.ofList (retain n.toNat 0 bs)) n.toNat
    sel.skip _ (Pull.collect_ofList _)
  simp only [Cut, limited, retainLimit, SelectStatement.window, hlimit, upper_streaming env sel hs]
  change (∃ out', (limitOperator n.toNat sel.skip _).collect = .ok out' ∧ _) ↔ _
  rw [hkept, ← hrows]
  simp

theorem limitLaw_of_safe (env : Env F) (catalog : Catalog) (sel : SelectStatement F)
    (hjoins : sel.joins = []) (hsafe : LimitSafe env catalog sel) : LimitLaw env catalog sel := by
  rw [limitLaw_iff env catalog sel hjoins]
  intro bs hbs out hout
  have hcond := hsafe bs hbs
  cases hlimit : sel.limit with
  | none =>
    rw [hlimit] at hcond
    exact (cut_none_iff env sel bs out hlimit hout).mpr (hcond.imp_right fun h => h out hout)
  | some n =>
    rw [hlimit] at hcond
    obtain hn | hkeep | ⟨hs, hrows⟩ := hcond
    · exact cut_zero env sel bs out n hlimit hn
    · exact cut_whole env sel bs out n hlimit hkeep hout
    · rw [upper_streaming env sel hs, Pull.collect_ofList] at hout
      cases hout
      exact (cut_streaming_iff env sel bs n hlimit hs).mpr (Or.inr hrows)

theorem safe_of_limitLaw (env : Env F) (catalog : Catalog) (sel : SelectStatement F)
    (hjoins : sel.joins = []) (hkind : sel.limit = none ∨ sel.Streaming)
    (hlaw : LimitLaw env catalog sel) : LimitSafe env catalog sel := by
  rw [limitLaw_iff env catalog sel hjoins] at hlaw
  intro bs hbs
  cases hlimit : sel.limit with
  | none =>
    by_cases hm : sel.skip = 0
    · exact Or.inl hm
    · refine Or.inr ?_
      intro out hout
      exact ((cut_none_iff env sel bs out hlimit hout).mp (hlaw bs hbs out hout)).resolve_left hm
  | some n =>
    have hs : sel.Streaming := hkind.resolve_left (by simp [hlimit])
    have hcut := hlaw bs hbs bs (by rw [upper_streaming env sel hs, Pull.collect_ofList])
    exact ((cut_streaming_iff env sel bs n hlimit hs).mp hcut).imp_right fun h => Or.inr ⟨hs, h⟩

theorem limitSafe_of_no_offset (env : Env F) (catalog : Catalog) (sel : SelectStatement F)
    (hs : sel.Streaming) (hskip : sel.skip = 0) : LimitSafe env catalog sel := by
  intro bs _
  cases sel.limit with
  | none => exact Or.inl hskip
  | some n =>
    have henough := retain_enough n.toNat 0 bs
    refine Or.inr (Or.inr ⟨hs, Or.inr ?_⟩)
    omega

/-- LIMIT and OFFSET mean what they say under this condition, and for a statement without LIMIT
or one that streams its rows under no other. -/
theorem limit_offset_law (env : Env F) (catalog : Catalog) (sel : SelectStatement F)
    (hjoins : sel.joins = []) :
    (LimitSafe env catalog sel → LimitLaw env catalog sel) ∧
      (sel.limit = none ∨ sel.Streaming →
        (LimitLaw env catalog sel ↔ LimitSafe env catalog sel)) := by
  refine ⟨limitLaw_of_safe env catalog sel hjoins, ?_⟩
  intro hkind
  exact ⟨safe_of_limitLaw env catalog sel hjoins hkind, limitLaw_of_safe env catalog sel hjoins⟩

end Law

def allLogs : SelectStatement Exact :=
  ⟨[.star], ⟨"logs", none⟩, [], none, [], none, [], none, none⟩

def countLogs : SelectStatement Exact :=
  { allLogs with projections := [.expr (.function "count" [.star]) none] }

def twoLogs : Env Exact := logsEnv 1 [logFile 5 "x", logFile 6 "y"]

/-- `LIMIT 1` alone returns the first of them. -/
theorem limit_law_first_log : LimitLaw twoLogs Catalog.new { allLogs with limit := some 1 } :=
  (limit_offset_law twoLogs Catalog.new { allLogs with limit := some 1 } rfl).1
    (limitSafe_of_no_offset _ _ _ ⟨rfl, rfl⟩ rfl)

theorem not_limitLaw (env : Env Exact) (catalog : Catalog) (sel : SelectStatement Exact)
    (rows rows' : List (List (Cell Exact)))
    (hall : (execute env catalog sel.unlimited).map resultRows = .ok rows)
    (hcut : (execute env catalog sel).map resultRows = .ok rows') (hne : rows' ≠ sel.window rows) :
    ¬ LimitLaw env catalog sel := by
  intro hlaw
  cases hout : execute env catalog sel.unlimited with
  | error s =>
    rw [hout] at hall
    cases hall
  | ok out =>
    obtain ⟨out', hout', hrows⟩ := hlaw out hout
    rw [hout] at hall
    rw [hout'] at hcut
    cases hall
    cases hcut
    exact hne hrows

/-- `OFFSET 1` is ignored; with `LIMIT 1 OFFSET 1` the scan has dropped the second record before
the first is skipped; `SELECT count(*) … LIMIT 1` counts one record. -/
theorem limit_changes_answers :
    ¬ LimitLaw twoLogs Catalog.new { allLogs with offset := some 1 } ∧
      ¬ LimitLaw twoLogs Catalog.new { allLogs with limit := some 1, offset := some 1 } ∧
      ¬ LimitLaw twoLogs Catalog.new { countLogs with limit := some 1 } := by
  refine ⟨?_, ?_, ?_⟩
  · refine not_limitLaw _ _ _ [logCells 5 "x", logCells 6 "y"] [logCells 5 "x", logCells 6 "y"]
      rfl rfl ?_
    intro h
    exact absurd (congrArg List.length h) (by decide)
  · refine not_limitLaw _ _ _ [logCells 5 "x", logCells 6 "y"] [] rfl rfl ?_
    intro h
    exact absurd (congrArg List.length h) (by decide)
  · refine not_limitLaw _ _ _ [[⟨.int64, .valid 2⟩]] [[⟨.int64, .valid 1⟩]] rfl rfl ?_
    intro h
    cases h

end InfraLens.Query
