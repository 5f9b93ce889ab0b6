import Mathlib.Algebra.Order.BigOperators.Group.List
import InfraLens.Executor
import InfraLens.RowRefinement

/-! Predicate pushdown against the execution of plans. Several filters over one scan become a
single predicate, the topmost, so the rewrite keeps the meaning of a plan where that predicate
alone selects what all of them select. -/
namespace InfraLens.Query
open Schema Arrow Model LibPull LibExcept

variable {F : Type}

/-! ### Filters over a scan -/

/-- A plan without joins whose scans carry no predicate and no limit. -/
def LogicalPlan.Plain : LogicalPlan F → Prop
  | .scan op => op.predicate = none ∧ op.limit = none
  | .filter _ input => input.Plain
  | .project _ input => input.Plain
  | .aggregate _ _ input => input.Plain
  | .sort _ input => input.Plain
  | .limit _ _ input => input.Plain
  | .join _ _ _ _ => False

/-- A scan and the filters directly above it, from the bottom up. -/
def chain? : LogicalPlan F → Option (ScanOp F × List (Expr F))
  | .scan op => some (op, [])
  | .filter p input => (chain? input).map fun c => (c.1, c.2 ++ [p])
  | _ => none

theorem pushdown_chain (plan : LogicalPlan F) (op : ScanOp F) (preds : List (Expr F))
    (h : chain? plan = some (op, preds)) :
    predicatePushdown plan = .scan { op with predicate := preds.getLast?.or op.predicate } := by
  induction plan generalizing op preds with
  | scan op' =>
    cases h
    rfl
  | filter p input ih =>
    obtain ⟨c, hc, he⟩ := Option.map_eq_some_iff.mp h
    cases he
    rw [predicatePushdown, ih c.1 c.2 hc, pushFilter]
    simp
  | _ => cases h

theorem pushdown_not_chain (plan : LogicalPlan F) (h : chain? plan = none) (op : ScanOp F) :
    predicatePushdown plan ≠ .scan op := by
  induction plan generalizing op with
  | scan op' => cases h
  | filter p input ih =>
    have hinput : chain? input = none := by simpa [chain?] using h
    rw [predicatePushdown]
    cases hp : predicatePushdown input with
    | scan op' => exact absurd hp (ih hinput op')
    | _ => exact fun he => by cases he
  | _ => exact fun he => by cases he

theorem chain_plain (plan : LogicalPlan F) (op : ScanOp F) (preds : List (Expr F))
    (h : chain? plan = some (op, preds)) (hplain : plan.Plain) :
    op.predicate = none ∧ op.limit = none := by
  induction plan generalizing op preds with
  | scan op' =>
    cases h
    exact hplain
  | filter p input ih =>
    obtain ⟨c, hc, he⟩ := Option.map_eq_some_iff.mp h
    cases he
    exact ih c.1 c.2 hc hplain
  | _ => cases h

section Exec
variable [FloatOps F]

/-- What is left of a batch after the filters in turn, if any row is. -/
def filterAll (clock : Int64) : List (Expr F) → RecordBatch F → Res (Option (RecordBatch F))
  | [] => fun b => .ok (some b)
  | p :: ps => Pull.andThen (selected clock p) (filterAll clock ps)

theorem filterAll_nil (clock : Int64) (bs : List (RecordBatch F)) :
    (Pull.ofList bs).filterMapM (filterAll clock []) = Pull.ofList bs := by
  rw [Pull.filterMapM_ofList (filterAll clock []) some bs fun b _ => rfl, List.filterMap_some]

theorem filterAll_append (clock : Int64) (ps : List (Expr F)) (p : Expr F) :
    filterAll clock (ps ++ [p]) = Pull.andThen (filterAll clock ps) (selected clock p) := by
  induction ps with
  | nil =>
    funext b
    change Pull.andThen (selected clock p) (fun c => .ok (some c)) b = selected clock p b
    cases hs : selected clock p b with
    | error s => simp [Pull.andThen, hs]
    | ok o => cases o <;> simp [Pull.andThen, hs]
  | cons q ps ih => rw [List.cons_append, filterAll, ih, filterAll, Pull.andThen_assoc]

theorem build_chain (env : Env F) (plan : LogicalPlan F) (op : ScanOp F) (preds : List (Expr F))
    (h : chain? plan = some (op, preds)) :
    build env plan = (loadBatches env op).map fun bs =>
      (Pull.ofList bs).filterMapM (filterAll env.clock preds) := by
  induction plan generalizing op preds with
  | scan op' =>
    cases h
    rw [build]
    congr 1
    funext bs
    exact (filterAll_nil env.clock bs).symm
  | filter p input ih =>
    obtain ⟨c, hc, he⟩ := Option.map_eq_some_iff.mp h
    cases he
    rw [build, ih c.1 c.2 hc]
    cases loadBatches env c.1 with
    | error s => rfl
    | ok bs =>
      rw [filterAll_append]
      exact congrArg Except.ok (Pull.filterMapM_filterMapM _ _ _)
  | _ => cases h

/-! ### Where the rewrite is harmless -/

omit [FloatOps F] in
def reads (env : Env F) (op : ScanOp F) : List (Except String (RecordBatch F)) :=
  match signalForTable op.table with
  | .ok signal => ((env.storage signal).sstablePaths op.partitionFilter).flatMap SSTableFile.batches
  | .error _ => []

/-- The topmost filter evaluates on the batch as it is stored, and selects of it what all the
filters select in turn. -/
def LastSuffices (clock : Int64) (preds : List (Expr F)) (b : RecordBatch F) : Prop :=
  ∀ p, preds.getLast? = some p →
    ∃ o, selected clock p b = .ok o ∧ filterAll clock preds b = .ok o

theorem lastSuffices_single (clock : Int64) (p : Expr F) (b : RecordBatch F) :
    LastSuffices clock [p] b ↔ ∃ o, selected clock p b = .ok o := by
  have hone : filterAll clock [p] = selected clock p := filterAll_append clock [] p
  constructor
  · intro h
    obtain ⟨o, hsel, _⟩ := h p rfl
    exact ⟨o, hsel⟩
  · intro ⟨o, hsel⟩ q hq
    cases hq
    exact ⟨o, hsel, hone ▸ hsel⟩

/-- The filters directly above a scan satisfy this on every batch the scan reads. -/
def PushSafe (env : Env F) (plan : LogicalPlan F) : Prop :=
  match chain? plan with
  | some (op, preds) => ∀ b, .ok b ∈ reads env op → LastSuffices env.clock preds b
  | none =>
    match plan with
    | .filter _ input => PushSafe env input
    | .project _ input => PushSafe env input
    | .aggregate _ _ input => PushSafe env input
    | .sort _ input => PushSafe env input
    | .limit _ _ input => PushSafe env input
    | _ => True

theorem loadBatches_plain (env : Env F) (op : ScanOp F) (hlimit : op.limit = none) :
    loadBatches env op = match signalForTable op.table with
      | .ok _ => loadAll env.clock op.predicate (reads env op)
      | .error s => .error s := by
  unfold loadBatches reads
  cases signalForTable op.table with
  | error s => rfl
  | ok signal =>
    change (loadAll env.clock op.predicate _ >>= fun all => pure (retainLimit op.limit all)) =
      loadAll env.clock op.predicate _
    rw [hlimit]
    exact bind_pure _

theorem executePlan_scan (env : Env F) (op : ScanOp F) :
    executePlan env (.scan op) = loadBatches env op := by
  rw [executePlan, build]
  cases loadBatches env op with
  | error s => rfl
  | ok bs => exact Pull.collect_ofList bs

theorem loadAll_ok (clock : Int64) (bs : List (RecordBatch F)) :
    loadAll clock none (bs.map .ok) = .ok bs := by
  induction bs with
  | nil => rfl
  | cons b bs ih => rw [List.map_cons, loadAll, ih]; rfl

theorem loadAll_some (clock : Int64) (p : Expr F) (g : RecordBatch F → Option (RecordBatch F))
    (rs : List (Except String (RecordBatch F)))
    (h : ∀ b, .ok b ∈ rs → selected clock p b = .ok (g b)) :
    loadAll clock (some p) rs = (loadAll clock none rs).map fun bs => bs.filterMap g := by
  induction rs with
  | nil => rfl
  | cons r rs ih =>
    have hrest := ih fun b hb => h b (List.mem_cons_of_mem r hb)
    cases r with
    | error msg => rfl
    | ok b =>
      have hb := h b List.mem_cons_self
      simp only [loadAll, readBatch, hrest]
      rw [ok_bind, ok_bind, hb, ok_bind]
      cases loadAll clock none rs with
      | error s => rfl
      | ok bs =>
        change Except.ok ((g b).toList ++ bs.filterMap g) = Except.ok ((b :: bs).filterMap g)
        cases hg : g b with
        | none => rw [List.filterMap_cons_none hg]; rfl
        | some c => rw [List.filterMap_cons_some hg]; rfl

theorem mem_of_loadAll (clock : Int64) (rs : List (Except String (RecordBatch F)))
    (bs : List (RecordBatch F)) (h : loadAll clock none rs = .ok bs) : rs = bs.map .ok := by
  induction rs generalizing bs with
  | nil =>
    cases h
    rfl
  | cons r rs ih =>
    cases r with
    | error msg => cases h
    | ok b =>
      simp only [loadAll, readBatch] at h
      rw [ok_bind] at h
      obtain ⟨bs', hl, hbs⟩ := of_bind_ok _ _ _ h
      cases hbs
      rw [List.map_cons, ← ih bs' hl]

omit [FloatOps F] in
theorem signalForTable_reads (env : Env F) (op op' : ScanOp F) (htable : op'.table = op.table)
    (hfilter : op'.partitionFilter = op.partitionFilter) : reads env op' = reads env op := by
  unfold reads
  rw [htable, hfilter]

theorem build_pushed_chain (env : Env F) (plan : LogicalPlan F) (op : ScanOp F)
    (preds : List (Expr F)) (h : chain? plan = some (op, preds)) (hplain : plan.Plain)
    (hsafe : ∀ b, .ok b ∈ reads env op → LastSuffices env.clock preds b) :
    build env (predicatePushdown plan) = build env plan := by
  obtain ⟨hpred, hlimit⟩ := chain_plain plan op preds h hplain
  rw [pushdown_chain plan op preds h, build_chain env plan op preds h, hpred, Option.or_none, build]
  cases hlast : preds.getLast? with
  | none =>
    have hnil : preds = [] := List.getLast?_eq_none_iff.mp hlast
    subst hnil
    rw [← hpred]
    congr 1
    funext bs
    exact (filterAll_nil env.clock bs).symm
  | some p =>
    rw [loadBatches_plain env { op with predicate := some p } hlimit,
      loadBatches_plain env op hlimit, hpred,
      signalForTable_reads env op { op with predicate := some p } rfl rfl]
    cases signalForTable op.table with
    | error s => rfl
    | ok signal =>
      let g : RecordBatch F → Option (RecordBatch F) := fun b =>
        (selected env.clock p b).toOption.join
      have hg : ∀ b, .ok b ∈ reads env op → selected env.clock p b = .ok (g b) ∧
          filterAll env.clock preds b = .ok (g b) := by
        intro b hb
        obtain ⟨o, hsel, hall⟩ := hsafe b hb p hlast
        have hgb : selected env.clock p b = .ok (g b) := Pull.eq_ok_join _ ⟨o, hsel⟩
        exact ⟨hgb, hall.trans (hsel.symm.trans hgb)⟩
      change (loadAll env.clock (some p) (reads env op)).map Pull.ofList =
        (loadAll env.clock none (reads env op)).map _
      rw [loadAll_some env.clock p g (reads env op) fun b hb => (hg b hb).1]
      cases hload : loadAll env.clock none (reads env op) with
      | error s => rfl
      | ok bs =>
        have hbs := mem_of_loadAll env.clock (reads env op) bs hload
        have hfilter := Pull.filterMapM_ofList (filterAll env.clock preds) g bs fun b hb =>
          (hg b (hbs ▸ List.mem_map_of_mem hb)).2
        change Except.ok (Pull.ofList (bs.filterMap g)) = Except.ok _
        rw [← hfilter]

theorem build_pushdown (env : Env F) (plan : LogicalPlan F) (hplain : plan.Plain)
    (hsafe : PushSafe env plan) : build env (predicatePushdown plan) = build env plan := by
  induction plan with
  | scan op => rfl
  | filter p input ih =>
    cases hc : chain? (.filter p input) with
    | some c =>
      rw [PushSafe, hc] at hsafe
      exact build_pushed_chain env _ c.1 c.2 hc hplain hsafe
    | none =>
      rw [PushSafe, hc] at hsafe
      have hinput : chain? input = none := by simpa [chain?] using hc
      have hpush :
          pushFilter p (predicatePushdown input) = .filter p (predicatePushdown input) := by
        cases hp : predicatePushdown input with
        | scan op => exact absurd hp (pushdown_not_chain input hinput op)
        | _ => rfl
      rw [predicatePushdown, hpush, build, build, ih hplain hsafe]
  | project columns input ih =>
    rw [PushSafe] at hsafe
    exact ih hplain hsafe
  | aggregate keys aggregates input ih =>
    rw [PushSafe] at hsafe
    rw [predicatePushdown, build, build, ih hplain hsafe]
  | sort keys input ih =>
    rw [PushSafe] at hsafe
    rw [predicatePushdown, build, build, ih hplain hsafe]
  | limit n offset input ih =>
    rw [PushSafe] at hsafe
    rw [predicatePushdown, build, build, ih hplain hsafe]
  | join kind left right condition => exact hplain.elim

/-! ### Filters that look at one row at a time -/

omit [FloatOps F] in
def accepts (r : Res (Cell F)) : Bool :=
  match r with
  | .ok ⟨.boolean, x⟩ => x.isTrue
  | _ => false

omit [FloatOps F] in
theorem keep_eq_filter {ρ : Type} (rows : List ρ) (mask : List (Slot Bool))
    (f : ρ → Res (Cell F)) (h : rows.map f = mask.map fun x => .ok ⟨.boolean, x⟩) :
    keep mask rows = rows.filter fun row => accepts (f row) := by
  induction rows generalizing mask with
  | nil => cases mask <;> rfl
  | cons row rows ih =>
    cases mask with
    | nil => cases h
    | cons x mask =>
      obtain ⟨hrow, hrest⟩ := List.cons.inj h
      have hacc : accepts (f row) = x.isTrue := by rw [hrow]; rfl
      rw [keep, ih mask hrest, List.filter_cons, hacc]

/-- A predicate of the parser that reads no first row. -/
def RowWise (schema : List Field) (p : Expr F) : Prop := p.FromParser ∧ check schema p ≠ .call

theorem applyPredicate_rows (clock : Int64) (b out : RecordBatch F) (p : Expr F)
    (hp : RowWise b.schema p) (h : applyPredicate clock b p = .ok out) :
    out.schema = b.schema ∧
      out.rows = b.rows.filter fun row => accepts (rowExpr clock b.schema row p) := by
  have href := refines_expr clock b p hp.1
  unfold applyPredicate evalFilter at h
  cases heval : evalExpr clock b p with
  | error s =>
    rw [heval] at h
    cases h
  | ok a =>
    obtain ⟨t, slots⟩ := a
    rw [heval, ok_bind] at h
    by_cases ht : t = .boolean
    · subst ht
      change filterRecordBatch b slots = .ok out at h
      have hcells : (b.rows.map fun row => rowExpr clock b.schema row p) =
          slots.map fun x => .ok ⟨.boolean, x⟩ := by
        rw [heval] at href
        cases hv : check b.schema p with
        | call => exact absurd hv hp.2
        | fails =>
          rw [hv] at href
          obtain ⟨_, hq, _⟩ | ⟨_, hs, _⟩ := href
          · cases hq
          · cases hs
        | typed u =>
          rw [hv] at href
          obtain ⟨slots', hok, hcells⟩ | ⟨_, hs, _⟩ := href
          · cases hok
            exact hcells
          · cases hs
      have hlen : slots.length ≤ b.numRows := by
        have hl := congrArg List.length hcells
        rw [List.length_map, List.length_map, length_rows] at hl
        exact hl.ge
      exact ⟨schema_filter b out slots h, (rows_filter b out slots hlen h).trans
        (keep_eq_filter b.rows slots _ hcells)⟩
    · rw [requireBoolean_of_ne t ht] at h
      cases h

omit [FloatOps F] in
def optRows (o : Option (RecordBatch F)) : List (List (Cell F)) := o.elim [] RecordBatch.rows

omit [FloatOps F] in
theorem optRows_nonEmpty (b : RecordBatch F) : optRows (nonEmpty b) = b.rows := by
  unfold nonEmpty
  split
  · rfl
  · exact (List.eq_nil_of_length_eq_zero (by rw [length_rows]; omega)).symm

theorem selected_rows (clock : Int64) (b : RecordBatch F) (p : Expr F)
    (o : Option (RecordBatch F)) (hp : RowWise b.schema p) (h : selected clock p b = .ok o) :
    optRows o = b.rows.filter (fun row => accepts (rowExpr clock b.schema row p)) ∧
      ∀ c ∈ o, c.schema = b.schema ∧ 0 < c.numRows := by
  unfold selected at h
  obtain ⟨out, happ, ho⟩ := of_bind_ok _ _ _ h
  cases ho
  obtain ⟨hschema, hrows⟩ := applyPredicate_rows clock b out p hp happ
  refine ⟨(optRows_nonEmpty out).trans hrows, ?_⟩
  intro c hc
  unfold nonEmpty at hc
  split at hc
  next hpos =>
    cases hc
    exact ⟨hschema, hpos⟩
  · cases hc

omit [FloatOps F] in
theorem filter_all_cons {α β : Type} (rows : List α) (test : β → α → Bool) (p : β) (ps : List β) :
    (rows.filter fun row => (p :: ps).all fun q => test q row) =
      (rows.filter (test p)).filter fun row => ps.all fun q => test q row := by
  rw [List.filter_filter]
  simp only [List.all_cons, Bool.and_comm]

theorem filterAll_rows (clock : Int64) (preds : List (Expr F)) (b : RecordBatch F)
    (o : Option (RecordBatch F)) (hp : ∀ p ∈ preds, RowWise b.schema p)
    (h : filterAll clock preds b = .ok o) :
    optRows o = (b.rows.filter fun row =>
        preds.all fun p => accepts (rowExpr clock b.schema row p)) ∧
      ∀ c ∈ o, c.schema = b.schema ∧ (preds = [] ∨ 0 < c.numRows) := by
  induction preds generalizing b with
  | nil =>
    cases h
    refine ⟨(List.filter_true b.rows).symm, ?_⟩
    intro c hc
    cases hc
    exact ⟨rfl, Or.inl rfl⟩
  | cons p preds ih =>
    rw [filterAll, Pull.andThen] at h
    cases hs : selected clock p b with
    | error s =>
      rw [hs] at h
      cases h
    | ok o' =>
      obtain ⟨hrows, hschema⟩ := selected_rows clock b p o' (hp p List.mem_cons_self) hs
      rw [hs] at h
      rw [filter_all_cons b.rows (fun q row => accepts (rowExpr clock b.schema row q)), ← hrows]
      cases o' with
      | none =>
        cases h
        exact ⟨rfl, fun c hc => by cases hc⟩
      | some c =>
        obtain ⟨hc, hpos⟩ := hschema c rfl
        obtain ⟨hrest, hout⟩ := ih c (fun q hq => hc ▸ hp q (List.mem_cons_of_mem p hq)) h
        rw [hc] at hrest
        refine ⟨hrest, ?_⟩
        intro d hd
        obtain ⟨hd', hpos'⟩ := hout d hd
        refine ⟨hd'.trans hc, Or.inr ?_⟩
        cases hpos' with
        | inl hnil =>
          subst hnil
          cases h
          cases hd
          exact hpos
        | inr hlt => exact hlt

omit [FloatOps F] in
theorem resultRows_filterMap (bs : List (RecordBatch F))
    (g : RecordBatch F → Option (RecordBatch F)) :
    resultRows (bs.filterMap g) = bs.flatMap fun b => optRows (g b) := by
  induction bs with
  | nil => rfl
  | cons b bs ih =>
    rw [List.flatMap_cons, ← ih]
    cases hg : g b with
    | none => rw [List.filterMap_cons_none hg]; rfl
    | some c => rw [List.filterMap_cons_some hg]; rfl

theorem flatMap_parts {α β : Type} (f g : α → List β) (as : List α)
    (hle : ∀ a ∈ as, (f a).length ≤ (g a).length) (h : as.flatMap f = as.flatMap g) :
    ∀ a ∈ as, f a = g a := by
  induction as with
  | nil => exact fun a ha => by cases ha
  | cons a as ih =>
    have hrest : ∀ a' ∈ as, (f a').length ≤ (g a').length := fun a' ha' =>
      hle a' (List.mem_cons_of_mem a ha')
    have hsum : (as.flatMap f).length ≤ (as.flatMap g).length := by
      rw [List.length_flatMap, List.length_flatMap]
      exact List.sum_le_sum hrest
    rw [List.flatMap_cons, List.flatMap_cons] at h
    have hlen : (f a).length = (g a).length := by
      have htotal := congrArg List.length h
      rw [List.length_append, List.length_append] at htotal
      have hhead := hle a List.mem_cons_self
      omega
    obtain ⟨hhead, htail⟩ := List.append_inj h hlen
    intro a' ha'
    cases List.mem_cons.mp ha' with
    | inl he => exact he ▸ hhead
    | inr hm => exact ih hrest htail a' hm

omit [FloatOps F] in
theorem eq_of_optRows (schema : List Field) (o o' : Option (RecordBatch F))
    (ho : ∀ c ∈ o, c.schema = schema ∧ 0 < c.numRows)
    (ho' : ∀ c ∈ o', c.schema = schema ∧ 0 < c.numRows) (h : optRows o = optRows o') : o = o' := by
  have hpos : ∀ c : RecordBatch F, 0 < c.numRows → c.rows ≠ [] := fun c hc hnil => by
    rw [← length_rows, hnil] at hc
    exact absurd hc (Nat.lt_irrefl 0)
  cases o with
  | none =>
    cases o' with
    | none => rfl
    | some d => exact absurd h.symm (hpos d (ho' d rfl).2)
  | some c =>
    cases o' with
    | none => exact absurd h (hpos c (ho c rfl).2)
    | some d => rw [eq_of_rows c d ((ho c rfl).1.trans (ho' d rfl).1.symm) h]

theorem ok_of_loadAll (clock : Int64) (p : Expr F) (bs cs : List (RecordBatch F))
    (h : loadAll clock (some p) (bs.map .ok) = .ok cs) (b : RecordBatch F) (hb : b ∈ bs) :
    ∃ o, selected clock p b = .ok o := by
  induction bs generalizing cs with
  | nil => cases hb
  | cons b' bs ih =>
    simp only [List.map_cons, loadAll, readBatch] at h
    rw [ok_bind] at h
    obtain ⟨o, hs, h⟩ := of_bind_ok _ _ _ h
    obtain ⟨cs', hl, _⟩ := of_bind_ok _ _ _ h
    cases List.mem_cons.mp hb with
    | inl he => exact ⟨o, he ▸ hs⟩
    | inr hm => exact ih cs' hl hm

/-- An execution of filters over a scan that succeeds: the batches it read, and that no filter
failed on one. -/
theorem executePlan_chain (env : Env F) (plan : LogicalPlan F) (op : ScanOp F)
    (preds : List (Expr F)) (h : chain? plan = some (op, preds)) (hplain : plan.Plain)
    (out : List (RecordBatch F)) (hexec : executePlan env plan = .ok out) :
    ∃ (signal : SignalType) (stored : List (RecordBatch F)),
      signalForTable op.table = .ok signal ∧ reads env op = stored.map .ok ∧
      (∀ b ∈ stored, ∃ o, filterAll env.clock preds b = .ok o) ∧
      out = stored.filterMap fun b => (filterAll env.clock preds b).toOption.join := by
  obtain ⟨hpred, hlimit⟩ := chain_plain plan op preds h hplain
  rw [executePlan, build_chain env plan op preds h, loadBatches_plain env op hlimit, hpred] at hexec
  cases hsig : signalForTable op.table with
  | error s =>
    rw [hsig] at hexec
    cases hexec
  | ok signal =>
    rw [hsig] at hexec
    cases hload : loadAll env.clock none (reads env op) with
    | error s =>
      rw [hload] at hexec
      cases hexec
    | ok stored =>
      rw [hload] at hexec
      change ((Pull.ofList stored).filterMapM (filterAll env.clock preds)).collect =
        .ok out at hexec
      have hok := Pull.ok_of_collect (filterAll env.clock preds) stored out hexec
      have hlist := Pull.filterMapM_ofList (filterAll env.clock preds)
        (fun b => (filterAll env.clock preds b).toOption.join) stored fun b hb =>
          Pull.eq_ok_join _ (hok b hb)
      rw [hlist, Pull.collect_ofList] at hexec
      exact ⟨signal, stored, rfl, mem_of_loadAll env.clock (reads env op) stored hload, hok,
        (Except.ok.inj hexec).symm⟩

section LastFilter
variable (clock : Int64) (preds : List (Expr F)) (p : Expr F) (hlast : preds.getLast? = some p)

include hlast

theorem lastSuffices_iff_optRows (b : RecordBatch F) (hrow : ∀ q ∈ preds, RowWise b.schema q)
    (o o' : Option (RecordBatch F)) (ho : filterAll clock preds b = .ok o)
    (ho' : selected clock p b = .ok o') :
    LastSuffices clock preds b ↔ optRows o = optRows o' := by
  have hmem : p ∈ preds := List.mem_of_getLast? hlast
  constructor
  · intro h
    obtain ⟨o'', hsel, hall⟩ := h p hlast
    rw [hsel] at ho'
    rw [hall] at ho
    rw [← Except.ok.inj ho, ← Except.ok.inj ho']
  · intro h q hq
    obtain rfl : p = q := Option.some.inj (hlast.symm.trans hq)
    have hout := (filterAll_rows clock preds b o hrow ho).2
    have hout' := (selected_rows clock b p o' (hrow p hmem) ho').2
    have hsame : o = o' := eq_of_optRows b.schema o o' (fun c hc =>
      ⟨(hout c hc).1, (hout c hc).2.resolve_left (List.ne_nil_of_mem hmem)⟩) hout' h
    exact ⟨o', ho', hsame ▸ ho⟩

/-- In terms of rows: every row the topmost filter accepts, all of them accept. -/
theorem lastSuffices_iff_rows (b : RecordBatch F) (hrow : ∀ q ∈ preds, RowWise b.schema q)
    (hall : ∃ o, filterAll clock preds b = .ok o) (htop : ∃ o, selected clock p b = .ok o) :
    LastSuffices clock preds b ↔ ∀ row ∈ b.rows, accepts (rowExpr clock b.schema row p) = true →
      ∀ q ∈ preds, accepts (rowExpr clock b.schema row q) = true := by
  have hmem : p ∈ preds := List.mem_of_getLast? hlast
  obtain ⟨o, ho⟩ := hall
  obtain ⟨o', ho'⟩ := htop
  rw [lastSuffices_iff_optRows clock preds p hlast b hrow o o' ho ho',
    (filterAll_rows clock preds b o hrow ho).1, (selected_rows clock b p o' (hrow p hmem) ho').1]
  constructor
  · intro h row hmemRow hacc q hq
    have hin : row ∈ b.rows.filter fun row =>
        preds.all fun q => accepts (rowExpr clock b.schema row q) := by
      rw [h]
      exact List.mem_filter.mpr ⟨hmemRow, hacc⟩
    exact List.all_eq_true.mp (List.mem_filter.mp hin).2 q hq
  · intro h
    apply List.filter_congr
    intro row hmemRow
    rw [Bool.eq_iff_iff, List.all_eq_true]
    exact ⟨fun hevery => hevery p hmem, h row hmemRow⟩

/-- Where every filter looks at one row at a time, the topmost one alone returns the rows of all
of them only if it drops as much from every batch. -/
theorem lastSuffices_of_rows (stored : List (RecordBatch F))
    (hrow : ∀ q ∈ preds, ∀ b ∈ stored, RowWise b.schema q)
    (hall : ∀ b ∈ stored, ∃ o, filterAll clock preds b = .ok o)
    (htop : ∀ b ∈ stored, ∃ o, selected clock p b = .ok o)
    (h : resultRows (stored.filterMap fun b => (filterAll clock preds b).toOption.join) =
      resultRows (stored.filterMap fun b => (selected clock p b).toOption.join)) :
    ∀ b ∈ stored, LastSuffices clock preds b := by
  have hmem : p ∈ preds := List.mem_of_getLast? hlast
  rw [resultRows_filterMap, resultRows_filterMap] at h
  have hparts := flatMap_parts _ _ stored (fun b hb => by
    obtain ⟨o, ho⟩ := hall b hb
    obtain ⟨o', ho'⟩ := htop b hb
    have hrows := (filterAll_rows clock preds b o (fun q hq => hrow q hq b hb) ho).1
    have hrows' := (selected_rows clock b p o' (hrow p hmem b hb) ho').1
    rw [ho, ho']
    change (optRows o).length ≤ (optRows o').length
    rw [hrows, hrows', ← List.countP_eq_length_filter, ← List.countP_eq_length_filter]
    exact List.countP_mono_left fun row _ hacc => List.all_eq_true.mp hacc p hmem) h
  intro b hb
  obtain ⟨o, ho⟩ := hall b hb
  obtain ⟨o', ho'⟩ := htop b hb
  have heq := hparts b hb
  rw [ho, ho'] at heq
  exact (lastSuffices_iff_optRows clock preds p hlast b (fun q hq => hrow q hq b hb) o o' ho
    ho').mpr heq

end LastFilter

/-! ### The meaning of a plan -/

/-- An execution that succeeds still succeeds after the rewrite, with the same rows in the same
order. -/
def Preserves (env : Env F) (plan : LogicalPlan F) : Prop :=
  ∀ out, executePlan env plan = .ok out →
    ∃ out', executePlan env (predicatePushdown plan) = .ok out' ∧ resultRows out' = resultRows out

theorem preserves_of_safe (env : Env F) (plan : LogicalPlan F) (hplain : plan.Plain)
    (hsafe : PushSafe env plan) : Preserves env plan := by
  intro out hout
  refine ⟨out, ?_, rfl⟩
  rw [executePlan, build_pushdown env plan hplain hsafe]
  exact hout

theorem safe_of_preserves (env : Env F) (plan : LogicalPlan F) (hplain : plan.Plain)
    (op : ScanOp F) (preds : List (Expr F)) (hchain : chain? plan = some (op, preds))
    (hrow : ∀ p ∈ preds, ∀ b, .ok b ∈ reads env op → RowWise b.schema p)
    (out : List (RecordBatch F)) (hout : executePlan env plan = .ok out)
    (h : Preserves env plan) : PushSafe env plan := by
  obtain ⟨signal, stored, hsignal, hreads, hall, rfl⟩ :=
    executePlan_chain env plan op preds hchain hplain out hout
  obtain ⟨hpred, hlimit⟩ := chain_plain plan op preds hchain hplain
  have hstored : ∀ b, .ok b ∈ reads env op ↔ b ∈ stored := by
    intro b
    rw [hreads]
    simp
  unfold PushSafe
  rw [hchain]
  intro b hb p hlast
  obtain ⟨out', hout', hrows⟩ := h _ hout
  rw [pushdown_chain plan op preds hchain, hlast, Option.some_or, executePlan_scan,
    loadBatches_plain env { op with predicate := some p } hlimit,
    signalForTable_reads env op { op with predicate := some p } rfl rfl, hsignal] at hout'
  change loadAll env.clock (some p) (reads env op) = .ok out' at hout'
  have htop := ok_of_loadAll env.clock p stored out' (hreads ▸ hout')
  have hload := loadAll_some env.clock p (fun b => (selected env.clock p b).toOption.join)
    (reads env op) fun b hb => Pull.eq_ok_join _ (htop b ((hstored b).mp hb))
  rw [hout', hreads, loadAll_ok] at hload
  cases hload
  exact lastSuffices_of_rows env.clock preds p hlast stored
    (fun q hq b hb => hrow q hq b ((hstored b).mpr hb)) hall htop hrows.symm b
    ((hstored b).mp hb) p hlast

omit [FloatOps F] in
/-- The plan below its projections, which execute as nothing. -/
def LogicalPlan.core : LogicalPlan F → LogicalPlan F
  | .project _ input => input.core
  | plan => plan

theorem core_iff (env : Env F) (plan : LogicalPlan F) :
    (Preserves env plan.core ↔ Preserves env plan) ∧ (PushSafe env plan.core ↔ PushSafe env plan) ∧
      executePlan env plan.core = executePlan env plan ∧ (plan.Plain → plan.core.Plain) := by
  induction plan with
  | project columns input ih =>
    obtain ⟨hpres, hsafe, hexec, hplain⟩ := ih
    have hproject : PushSafe env (.project columns input) ↔ PushSafe env input := by
      rw [PushSafe]
      rfl
    exact ⟨hpres, hsafe.trans hproject.symm, hexec, hplain⟩
  | _ => exact ⟨Iff.rfl, Iff.rfl, rfl, id⟩

/-- The rewrite preserves a plan where the topmost filter over each scan evaluates on every
stored batch and selects what all of them select. For filters over a scan that look at one row
at a time, below any projections, this is the only case. -/
theorem pushdown_preserves (env : Env F) (plan : LogicalPlan F) (hplain : plan.Plain) :
    (PushSafe env plan → Preserves env plan) ∧
      ∀ op preds, chain? plan.core = some (op, preds) →
        (∀ p ∈ preds, ∀ b, .ok b ∈ reads env op → RowWise b.schema p) →
        (∃ out, executePlan env plan = .ok out) → (Preserves env plan ↔ PushSafe env plan) := by
  refine ⟨preserves_of_safe env plan hplain, ?_⟩
  intro op preds hchain hrow hexec
  obtain ⟨out, hout⟩ := hexec
  obtain ⟨hpres, hsafe, hsame, hcore⟩ := core_iff env plan
  refine ⟨?_, preserves_of_safe env plan hplain⟩
  intro h
  exact hsafe.mp (safe_of_preserves env plan.core (hcore hplain) op preds hchain hrow out
    (hsame.trans hout) (hpres.mpr h))

end Exec

def bodyIs (text : String) : Expr Exact := .binOp .eq (.column none "body") (.literal (.str text))

def logsWhere (predicate : Expr Exact) : SelectStatement Exact :=
  ⟨[.star], ⟨"logs", none⟩, [], some predicate, [], none, [], none, none⟩

/-- A single WHERE over a stored record. -/
theorem pushdown_preserves_where :
    Preserves (logsEnv 1 [logFile 5 "y"]) (planSelect (logsWhere (bodyIs "y"))) :=
  (pushdown_preserves (logsEnv 1 [logFile 5 "y"]) (planSelect (logsWhere (bodyIs "y")))
    (show _ ∧ _ from ⟨rfl, rfl⟩)).1 (by
    intro b hb
    cases List.mem_singleton.mp hb
    exact (lastSuffices_single 0 (bodyIs "y") (logBatch 5 "y")).mpr ⟨some (logBatch 5 "y"), rfl⟩)

/-- `WHERE body = 'x' HAVING body = 'y'` without an aggregate returns a record whose body
is `'y'`: the filter below is lost. -/
theorem pushdown_loses_filter :
    let env := logsEnv 1 [logFile 5 "y"]
    let plan := planSelect { logsWhere (bodyIs "x") with having := some (bodyIs "y") }
    plan.Plain ∧ executePlan env plan = .ok [] ∧
      executePlan env (predicatePushdown plan) = .ok [logBatch 5 "y"] ∧ ¬ Preserves env plan := by
  refine ⟨⟨rfl, rfl⟩, rfl, rfl, ?_⟩
  intro h
  obtain ⟨out', hout', hrows⟩ := h [] rfl
  cases hout'
  cases hrows

end InfraLens.Query
