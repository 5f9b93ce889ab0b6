import InfraLens.Folding
import InfraLens.RowQueries

/-! The passes of the optimizer in a row (optimizer/mod.rs): constants are folded, predicates and
projections pushed down, partitions pruned. Pushing a predicate into a scan makes its failures
come before anything is returned, so what was hidden behind a LIMIT shows. -/
namespace InfraLens.Query
open Schema Arrow Model LibPull LibExcept

variable {F : Type}

/-- No filter computes a remainder of literals. -/
def LogicalPlan.FoldSafe (clock : Int64) : LogicalPlan F → Prop
  | .scan op => ∀ p ∈ op.predicate, foldsMod clock p = false
  | .filter p input => foldsMod clock p = false ∧ input.FoldSafe clock
  | .project _ input => input.FoldSafe clock
  | .aggregate _ _ input => input.FoldSafe clock
  | .sort _ input => input.FoldSafe clock
  | .limit _ _ input => input.FoldSafe clock
  | .join _ _ _ _ => True

/-- Scans as the planner makes them without LIMIT, and at most one filter over a scan. -/
def LogicalPlan.Unstacked : LogicalPlan F → Prop
  | .scan op => op.predicate = none ∧ op.limit = none
  | .filter _ input =>
    (∀ op preds, chain? input = some (op, preds) → preds = []) ∧ input.Unstacked
  | .project _ input => input.Unstacked
  | .aggregate _ _ input => input.Unstacked
  | .sort _ input => input.Unstacked
  | .limit _ _ input => input.Unstacked
  | .join _ _ _ _ => True

/-- Every scan goes through all partitions. -/
def LogicalPlan.Unpruned : LogicalPlan F → Prop
  | .scan op => op.partitionFilter = []
  | .filter _ input => input.Unpruned
  | .project _ input => input.Unpruned
  | .aggregate _ _ input => input.Unpruned
  | .sort _ input => input.Unpruned
  | .limit _ _ input => input.Unpruned
  | .join _ _ _ _ => True

/-- No operator stops before the end of its input. -/
def LogicalPlan.limitFree : LogicalPlan F → Bool
  | .scan _ => true
  | .filter _ input => input.limitFree
  | .project _ input => input.limitFree
  | .aggregate _ _ input => input.limitFree
  | .sort _ input => input.limitFree
  | .limit _ _ _ => false
  | .join _ _ _ _ => true

/-! ### Folding -/

section Folding
variable [FloatOps F]

theorem selected_foldExpr (clock : Int64) (p : Expr F) (h : foldsMod clock p = false) :
    selected clock (foldExpr clock p) = selected clock p := by
  funext b
  rw [selected, selected, applyPredicate, applyPredicate, evalFilter, evalFilter,
    eval_foldExpr clock b p h]

theorem loadAll_foldExpr (clock : Int64) (p : Expr F) (h : foldsMod clock p = false)
    (rs : List (Except String (RecordBatch F))) :
    loadAll clock (some (foldExpr clock p)) rs = loadAll clock (some p) rs := by
  induction rs with
  | nil => rfl
  | cons r rs ih =>
    rw [loadAll, loadAll]
    simp only [selected_foldExpr clock p h, ih]

theorem build_foldConstants (env : Env F) (plan : LogicalPlan F) (h : plan.FoldSafe env.clock) :
    build env (foldConstants env.clock plan) = build env plan := by
  induction plan with
  | scan op =>
    rw [foldConstants, build, build, loadBatches, loadBatches]
    cases hp : op.predicate with
    | none => rfl
    | some p =>
      simp only [Option.map_some, loadAll_foldExpr env.clock p (h p hp)]
  | filter p input ih =>
    have hfilter :
        filterOperator env.clock (foldExpr env.clock p) = filterOperator env.clock p := by
      funext s
      rw [filterOperator, filterOperator, selected_foldExpr env.clock p h.1]
    rw [foldConstants, build, build, ih h.2, hfilter]
  | project columns input ih => exact ih h
  | aggregate keys aggregates input ih => rw [foldConstants, build, build, ih h]
  | sort keys input ih => rw [foldConstants, build, build, ih h]
  | limit n offset input ih => rw [foldConstants, build, build, ih h]
  | join kind left right condition ihl ihr => rfl

end Folding

theorem chain_foldConstants (clock : Int64) (plan : LogicalPlan F) :
    chain? (foldConstants clock plan) = (chain? plan).map fun c =>
      ({ c.1 with predicate := c.1.predicate.map (foldExpr clock) }, c.2.map (foldExpr clock)) := by
  induction plan with
  | filter p input ih =>
    rw [foldConstants, chain?, ih, chain?]
    cases chain? input with
    | none => rfl
    | some c => simp
  | _ => rfl

theorem unstacked_foldConstants (clock : Int64) (plan : LogicalPlan F) (h : plan.Unstacked) :
    (foldConstants clock plan).Unstacked := by
  induction plan with
  | scan op => exact ⟨by rw [h.1]; rfl, h.2⟩
  | filter p input ih =>
    refine ⟨?_, ih h.2⟩
    intro op preds hchain
    rw [chain_foldConstants] at hchain
    obtain ⟨c, hc, he⟩ := Option.map_eq_some_iff.mp hchain
    cases he
    rw [h.1 c.1 c.2 hc, List.map_nil]
  | project columns input ih => exact ih h
  | aggregate keys aggregates input ih => exact ih h
  | sort keys input ih => exact ih h
  | limit n offset input ih => exact ih h
  | join kind left right condition ihl ihr => trivial

theorem limitFree_foldConstants (clock : Int64) (plan : LogicalPlan F) :
    (foldConstants clock plan).limitFree = plan.limitFree := by
  induction plan with
  | filter p input ih => exact ih
  | project columns input ih => exact ih
  | aggregate keys aggregates input ih => exact ih
  | sort keys input ih => exact ih
  | _ => rfl

/-! ### Predicate pushdown -/

section Pushing
variable [FloatOps F] (env : Env F)

theorem loadAll_fails (clock : Int64) (p : Expr F) (rs : List (Except String (RecordBatch F)))
    (b : RecordBatch F) (hb : .ok b ∈ rs) (e : Stop) (he : selected clock p b = .error e) :
    ∃ e', loadAll clock (some p) rs = .error e' := by
  induction rs with
  | nil => cases hb
  | cons r rs ih =>
    rw [loadAll]
    cases r with
    | error msg => exact ⟨_, rfl⟩
    | ok b' =>
      rw [readBatch, ok_bind]
      cases hsel : selected clock p b' with
      | error e' => exact ⟨e', by simp only [hsel]; rfl⟩
      | ok o =>
        obtain ⟨e', hrest⟩ := ih <| by
          cases List.mem_cons.mp hb with
          | inl heq =>
            cases heq
            rw [he] at hsel
            cases hsel
          | inr hmem => exact hmem
        exact ⟨e', by simp only [hsel, ok_bind, hrest]; rfl⟩

theorem collect_filter_fails (clock : Int64) (p : Expr F) (s : Pull Stop (RecordBatch F))
    (h : ∃ e, s.collect = .error e) : ∃ e, (filterOperator clock p s).collect = .error e := by
  induction s with
  | done =>
    obtain ⟨e, he⟩ := h
    cases he
  | fail e => exact ⟨e, rfl⟩
  | next b rest ih =>
    have hrest : ∃ e, rest.collect = .error e := by
      obtain ⟨e, he⟩ := h
      rw [Pull.collect] at he
      cases hr : rest.collect with
      | ok bs =>
        rw [hr] at he
        cases he
      | error e' => exact ⟨e', rfl⟩
    obtain ⟨e, he⟩ := ih hrest
    rw [filterOperator, Pull.filterMapM_next]
    cases selected clock p b with
    | error e' => exact ⟨e', rfl⟩
    | ok o =>
      cases o with
      | none => exact ⟨e, he⟩
      | some c =>
        refine ⟨e, ?_⟩
        change (Pull.next c (filterOperator clock p rest)).collect = _
        rw [Pull.collect, he]

/-- Pushing a predicate down changes nothing, or makes the plan fail before it returns anything
where it fails in the end, if nothing stops it before. -/
def Hastens (plan plan' : LogicalPlan F) : Prop :=
  build env plan' = build env plan ∨
    (∃ e, build env plan' = .error e) ∧
      (plan.limitFree = true → ∃ e, executePlan env plan = .error e)

/-- One more operator on top, which fails in the end if its input does. -/
theorem hastens_map (plan plan' top top' : LogicalPlan F)
    (g : Pull Stop (RecordBatch F) → Pull Stop (RecordBatch F))
    (htop : build env top = (build env plan).map g)
    (htop' : build env top' = (build env plan').map g)
    (hfree : top.limitFree = true → plan.limitFree = true ∧
      ∀ s : Pull Stop (RecordBatch F), (∃ e, s.collect = .error e) → ∃ e, (g s).collect = .error e)
    (h : Hastens env plan plan') : Hastens env top top' := by
  obtain hsame | ⟨⟨e, he⟩, hfails⟩ := h
  · exact Or.inl (by rw [htop, htop', hsame])
  · refine Or.inr ⟨⟨e, by rw [htop', he]; rfl⟩, ?_⟩
    intro hlf
    obtain ⟨hplan, hg⟩ := hfree hlf
    have hend := hfails hplan
    rw [executePlan] at hend ⊢
    rw [htop]
    cases hb : build env plan with
    | error e' => exact ⟨e', rfl⟩
    | ok s =>
      rw [hb] at hend
      exact hg s hend

omit [FloatOps F] in
theorem collect_blocking_fails (f : List (RecordBatch F) → Res (List (RecordBatch F)))
    (s : Pull Stop (RecordBatch F)) (h : ∃ e, s.collect = .error e) :
    ∃ e, (blocking f s).collect = .error e := by
  obtain ⟨e, he⟩ := h
  exact ⟨e, by rw [collect_blocking, he]; rfl⟩

theorem hastens_scan (p : Expr F) (op : ScanOp F) (hpred : op.predicate = none)
    (hlimit : op.limit = none) :
    Hastens env (.filter p (.scan op)) (.scan { op with predicate := some p }) := by
  have hchain : chain? (.filter p (.scan op)) = some (op, [p]) := rfl
  by_cases hall : ∀ b, .ok b ∈ reads env op → ∃ o, selected env.clock p b = .ok o
  · refine Or.inl ?_
    exact build_pushed_chain env (.filter p (.scan op)) op [p] hchain ⟨hpred, hlimit⟩
      fun b hb => (lastSuffices_single env.clock p b).mpr (hall b hb)
  · obtain ⟨b, hb, hbad⟩ : ∃ b, .ok b ∈ reads env op ∧ ¬ ∃ o, selected env.clock p b = .ok o := by
      simpa using hall
    obtain ⟨e, he⟩ : ∃ e, selected env.clock p b = .error e := by
      cases hsel : selected env.clock p b with
      | ok o => exact absurd ⟨o, hsel⟩ hbad
      | error e => exact ⟨e, rfl⟩
    obtain ⟨e', hload⟩ := loadAll_fails env.clock p (reads env op) b hb e he
    refine Or.inr ⟨?_, ?_⟩
    · rw [build, loadBatches_plain env { op with predicate := some p } hlimit,
        signalForTable_reads env op { op with predicate := some p } rfl rfl]
      cases signalForTable op.table with
      | error s => exact ⟨s, rfl⟩
      | ok sig => exact ⟨e', by simp only [hload]; rfl⟩
    · intro _
      rw [executePlan, build, build, loadBatches_plain env op hlimit, hpred]
      cases signalForTable op.table with
      | error s => exact ⟨s, rfl⟩
      | ok sig =>
        cases hread : loadAll env.clock none (reads env op) with
        | error s => exact ⟨s, rfl⟩
        | ok bs =>
          have hmem : b ∈ bs := by
            rw [mem_of_loadAll env.clock _ bs hread] at hb
            obtain ⟨c, hc, hcb⟩ := List.mem_map.mp hb
            cases hcb
            exact hc
          change ∃ e, ((Pull.ofList bs).filterMapM (selected env.clock p)).collect = .error e
          cases hc : ((Pull.ofList bs).filterMapM (selected env.clock p)).collect with
          | error s => exact ⟨s, rfl⟩
          | ok cs => exact absurd (Pull.ok_of_collect _ bs cs hc b hmem) hbad

theorem hastens_pushdown (plan : LogicalPlan F) (h : plan.Unstacked) :
    Hastens env plan (predicatePushdown plan) := by
  induction plan with
  | scan op => exact Or.inl rfl
  | filter p input ih =>
    obtain ⟨hstack, hinput⟩ := h
    cases hchain : chain? input with
    | some c =>
      -- no filter below this one: the input is the scan itself
      cases input with
      | scan op => exact hastens_scan env p op hinput.1 hinput.2
      | filter q input' =>
        obtain ⟨c', hc', he⟩ := Option.map_eq_some_iff.mp hchain
        have hnil := hstack c.1 c.2 hchain
        rw [← he] at hnil
        simp at hnil
      | _ => cases hchain
    | none =>
      have hpush : pushFilter p (predicatePushdown input) =
          .filter p (predicatePushdown input) := by
        cases hp : predicatePushdown input with
        | scan op => exact absurd hp (pushdown_not_chain input hchain op)
        | _ => rfl
      rw [predicatePushdown, hpush]
      exact hastens_map env input _ _ _ (filterOperator env.clock p) rfl rfl
        (fun hlf => ⟨hlf, fun s => collect_filter_fails env.clock p s⟩) (ih hinput)
  | project columns input ih => exact ih h
  | aggregate keys aggregates input ih =>
    exact hastens_map env input _ _ _ (aggregateOperator keys aggregates) rfl rfl
      (fun hlf => ⟨hlf, fun s => collect_blocking_fails _ s⟩) (ih h)
  | sort keys input ih =>
    exact hastens_map env input _ _ _ (sortOperator env.lexsort keys) rfl rfl
      (fun hlf => ⟨hlf, fun s => collect_blocking_fails _ s⟩) (ih h)
  | limit n offset input ih =>
    exact hastens_map env input _ _ _ (limitOperator n.toNat offset.toNat) rfl rfl
      (fun hlf => by cases hlf) (ih h)
  | join kind left right condition ihl ihr => exact Or.inl rfl

end Pushing

/-! ### Projections and partitions -/

section Rest
variable [FloatOps F] (env : Env F)

theorem build_projectionPushdown (plan : LogicalPlan F) :
    build env (projectionPushdown plan) = build env plan := by
  induction plan with
  | project columns input ih =>
    have hpush : build env (pushProjection columns (projectionPushdown input)) =
        build env (projectionPushdown input) := by
      cases projectionPushdown input <;> rfl
    rw [projectionPushdown, hpush, ih]
    rfl
  | filter p input ih => rw [projectionPushdown, build, build, ih]
  | aggregate keys aggregates input ih => rw [projectionPushdown, build, build, ih]
  | sort keys input ih => rw [projectionPushdown, build, build, ih]
  | limit n offset input ih => rw [projectionPushdown, build, build, ih]
  | _ => rfl

omit [FloatOps F] in
theorem pruneScan_new (op : ScanOp F) (h : op.partitionFilter = []) :
    pruneScan Catalog.new op = op := by
  unfold pruneScan
  split
  · rw [overlappingPartitions_new, ← h]
  · rfl

/-- A catalog without statistics prunes nothing. -/
theorem build_partitionPrune (plan : LogicalPlan F) (h : plan.Unpruned) :
    build env (partitionPrune Catalog.new plan) = build env plan := by
  induction plan with
  | scan op => rw [partitionPrune, pruneScan_new op h]
  | filter p input ih => rw [partitionPrune, build, build, ih h]
  | project columns input ih => exact ih h
  | aggregate keys aggregates input ih => rw [partitionPrune, build, build, ih h]
  | sort keys input ih => rw [partitionPrune, build, build, ih h]
  | limit n offset input ih => rw [partitionPrune, build, build, ih h]
  | join kind left right condition ihl ihr => rfl

omit [FloatOps F] in
theorem unpruned_passes (clock : Int64) (plan : LogicalPlan F) (h : plan.Unpruned) :
    (projectionPushdown (predicatePushdown (foldConstants clock plan))).Unpruned := by
  have hfold : (foldConstants clock plan).Unpruned := by
    induction plan with
    | join kind left right condition ihl ihr => trivial
    | scan op => exact h
    | filter p input ih => exact ih h
    | project columns input ih => exact ih h
    | aggregate keys aggregates input ih => exact ih h
    | sort keys input ih => exact ih h
    | limit n offset input ih => exact ih h
  have hpush (plan : LogicalPlan F) (h : plan.Unpruned) : (predicatePushdown plan).Unpruned := by
    induction plan with
    | join kind left right condition ihl ihr => trivial
    | scan op => exact h
    | filter p input ih =>
      have hinput := ih h
      rw [predicatePushdown]
      cases hp : predicatePushdown input <;> rw [hp] at hinput <;> exact hinput
    | project columns input ih => exact ih h
    | aggregate keys aggregates input ih => exact ih h
    | sort keys input ih => exact ih h
    | limit n offset input ih => exact ih h
  have hproject (plan : LogicalPlan F) (h : plan.Unpruned) :
      (projectionPushdown plan).Unpruned := by
    induction plan with
    | join kind left right condition ihl ihr => trivial
    | scan op => exact h
    | filter p input ih => exact ih h
    | project columns input ih =>
      have hinput := ih h
      rw [projectionPushdown]
      cases hp : projectionPushdown input <;> rw [hp] at hinput <;> exact hinput
    | aggregate keys aggregates input ih => exact ih h
    | sort keys input ih => exact ih h
    | limit n offset input ih => exact ih h
  exact hproject _ (hpush _ hfold)

end Rest

end InfraLens.Query
