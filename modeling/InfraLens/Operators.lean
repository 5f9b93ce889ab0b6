import InfraLens.Executor

/-! The operators call by call (executor/*.rs): `poll_next` with the state each operator keeps
between calls, down the whole tree, and the loop of `execute`. The streams of `Executor` are what
a consumer of these calls sees. -/
namespace InfraLens.Query
open Schema Arrow Model LibPull

variable {F : Type}

/-- The operators with what they keep. An aggregate and a sort give their child away in the first
call; afterwards only the result is left, none if the call failed. -/
inductive Operator (F : Type) where
  | scan (batches : List (RecordBatch F))
  | filter (predicate : Expr F) (child : Operator F)
  | aggregate (keys : List (Expr F)) (aggregates : List (AggExpr F)) (child : Operator F)
  | aggregated (result : Option (RecordBatch F))
  | sort (keys : List (Expr F × Bool)) (child : Operator F)
  | sorted (result : Option (List (RecordBatch F)))
  | limit (remaining skip : Nat) (child : Operator F)

section Poll
variable [FloatOps F] (clock : Int64) (lexsort : List (SortColumn F) → Res (List Nat))

mutual

/-- `poll_next`. The loops are bounded by fuel, and `none` means that it ran out. -/
def pollNext : Nat → Operator F → Option (Res (Option (RecordBatch F)) × Operator F)
  | 0, _ => none
  | _ + 1, .scan [] => some (.ok none, .scan [])
  | _ + 1, .scan (b :: bs) => some (.ok (some b), .scan bs)
  | n + 1, .filter p child =>
    match pollNext n child with
    | none => none
    | some (.error e, child') => some (.error e, .filter p child')
    | some (.ok none, child') => some (.ok none, .filter p child')
    | some (.ok (some b), child') =>
      match selected clock p b with
      | .error e => some (.error e, .filter p child')
      | .ok (some out) => some (.ok (some out), .filter p child')
      | .ok none => pollNext n (.filter p child')
  | n + 1, .aggregate keys aggregates child =>
    match drain n child with
    | none => none
    | some all =>
      match all >>= compute keys aggregates with
      | .error e => some (.error e, .aggregated none)
      | .ok out => some (.ok (some out), .aggregated none)
  | _ + 1, .aggregated result => some (.ok result, .aggregated none)
  | n + 1, .sort keys child =>
    match drain n child with
    | none => none
    | some all =>
      match all >>= materialize lexsort keys with
      | .error e => some (.error e, .sorted none)
      | .ok out => pollNext n (.sorted (some out))
  | _ + 1, .sorted none => some (.ok none, .sorted none)
  | _ + 1, .sorted (some []) => some (.ok none, .sorted (some []))
  | _ + 1, .sorted (some (b :: bs)) => some (.ok (some b), .sorted (some bs))
  | n + 1, .limit remaining skip child =>
    if remaining = 0 then some (.ok none, .limit remaining skip child)
    else
      match pollNext n child with
      | none => none
      | some (.error e, child') => some (.error e, .limit remaining skip child')
      | some (.ok none, child') => some (.ok none, .limit remaining skip child')
      | some (.ok (some b), child') =>
        match limitStep (remaining, skip) b with
        | .error e => some (.error e, .limit remaining skip child')
        | .ok (s, some out) => some (.ok (some out), .limit s.1 s.2 child')
        | .ok (s, none) => pollNext n (.limit s.1 s.2 child')

/-- `while let Some(b) = op.poll_next()? { batches.push(b); }`. -/
def drain : Nat → Operator F → Option (Res (List (RecordBatch F)))
  | 0, _ => none
  | n + 1, op =>
    match pollNext n op with
    | none => none
    | some (.error e, _) => some (.error e)
    | some (.ok none, _) => some (.ok [])
    | some (.ok (some b), op') => (drain n op').map fun r => r.map (b :: ·)

end

attribute [local simp] pollNext drain

/-- A call returns this and leaves the operator like that, however much fuel there is from some
amount on. -/
def PollsTo (op : Operator F) (r : Res (Option (RecordBatch F))) (op' : Operator F) : Prop :=
  ∃ enough, ∀ n, enough ≤ n → pollNext clock lexsort n op = some (r, op')

/-- The calls return what the stream yields: its batches, then its failure, or nothing for ever. -/
inductive Yields : Operator F → Pull Stop (RecordBatch F) → Prop where
  | done (op op' : Operator F) (h : PollsTo clock lexsort op (.ok none) op')
      (hrest : PollsTo clock lexsort op' (.ok none) op') : Yields op .done
  | fail (op op' : Operator F) (e : Stop) (h : PollsTo clock lexsort op (.error e) op') :
      Yields op (.fail e)
  | next (op op' : Operator F) (b : RecordBatch F) (rest : Pull Stop (RecordBatch F))
      (h : PollsTo clock lexsort op (.ok (some b)) op') (hrest : Yields op' rest) :
      Yields op (.next b rest)

omit [FloatOps F] in
theorem enough_of_succ (P : Nat → Prop) (h : ∃ enough, ∀ n, enough ≤ n → P (n + 1)) :
    ∃ enough, ∀ n, enough ≤ n → P n := by
  obtain ⟨enough, h⟩ := h
  refine ⟨enough + 1, ?_⟩
  intro n hn
  obtain ⟨m, rfl⟩ : ∃ m, n = m + 1 := ⟨n - 1, by omega⟩
  exact h m (by omega)

theorem pollsTo_goesOn (op op₁ op' : Operator F) (r : Res (Option (RecordBatch F)))
    (hgo : ∃ enough, ∀ n, enough ≤ n →
      pollNext clock lexsort (n + 1) op = pollNext clock lexsort n op₁)
    (h : PollsTo clock lexsort op₁ r op') : PollsTo clock lexsort op r op' := by
  obtain ⟨enough, hgo⟩ := hgo
  obtain ⟨enough', h⟩ := h
  apply enough_of_succ
  refine ⟨max enough enough', ?_⟩
  intro n hn
  rw [hgo n (by omega), h n (by omega)]

theorem yields_goesOn (op op₁ : Operator F) (s : Pull Stop (RecordBatch F))
    (hgo : ∃ enough, ∀ n, enough ≤ n →
      pollNext clock lexsort (n + 1) op = pollNext clock lexsort n op₁)
    (h : Yields clock lexsort op₁ s) : Yields clock lexsort op s := by
  cases h with
  | done op₁ op' h hrest =>
    exact .done op op' (pollsTo_goesOn clock lexsort op op₁ op' _ hgo h) hrest
  | fail op₁ op' e h => exact .fail op op' e (pollsTo_goesOn clock lexsort op op₁ op' _ hgo h)
  | next op₁ op' b rest h hrest =>
    exact .next op op' b rest (pollsTo_goesOn clock lexsort op op₁ op' _ hgo h) hrest

/-! ### Scan, filter and limit -/

theorem yields_list (op : List (RecordBatch F) → Operator F)
    (hnil : ∀ n, pollNext clock lexsort (n + 1) (op []) = some (.ok none, op []))
    (hcons : ∀ n b bs, pollNext clock lexsort (n + 1) (op (b :: bs)) = some (.ok (some b), op bs))
    (bs : List (RecordBatch F)) : Yields clock lexsort (op bs) (Pull.ofList bs) := by
  induction bs with
  | nil =>
    have hnone : PollsTo clock lexsort (op []) (.ok none) (op []) :=
      enough_of_succ _ ⟨0, fun n _ => hnil n⟩
    exact .done _ _ hnone hnone
  | cons b bs ih => exact .next _ _ b _ (enough_of_succ _ ⟨0, fun n _ => hcons n b bs⟩) ih

theorem yields_scan (bs : List (RecordBatch F)) :
    Yields clock lexsort (.scan bs) (Pull.ofList bs) :=
  yields_list clock lexsort .scan (fun n => by rw [pollNext]) (fun n b bs => by rw [pollNext]) bs

theorem yields_sorted (bs : List (RecordBatch F)) :
    Yields clock lexsort (.sorted (some bs)) (Pull.ofList bs) :=
  yields_list clock lexsort (fun bs => .sorted (some bs)) (fun n => by rw [pollNext])
    (fun n b bs => by rw [pollNext]) bs

theorem pollsTo_filter (p : Expr F) (child child' : Operator F)
    (r : Res (Option (RecordBatch F))) (h : PollsTo clock lexsort child r child')
    (hr : ∀ b, r ≠ .ok (some b)) :
    PollsTo clock lexsort (.filter p child) r (.filter p child') := by
  obtain ⟨enough, h⟩ := h
  apply enough_of_succ
  refine ⟨enough, ?_⟩
  intro n hn
  rw [pollNext, h n hn]
  cases r with
  | error e => rfl
  | ok o =>
    cases o with
    | none => rfl
    | some b => exact absurd rfl (hr b)

theorem yields_filter (p : Expr F) (child : Operator F) (s : Pull Stop (RecordBatch F))
    (h : Yields clock lexsort child s) :
    Yields clock lexsort (.filter p child) (filterOperator clock p s) := by
  induction h with
  | done child child' h hrest =>
    exact .done _ _ (pollsTo_filter clock lexsort p _ _ _ h (by simp))
      (pollsTo_filter clock lexsort p _ _ _ hrest (by simp))
  | fail child child' e h =>
    exact .fail _ _ e (pollsTo_filter clock lexsort p _ _ _ h (by simp))
  | next child child' b rest h hrest ih =>
    obtain ⟨enough, h⟩ := h
    rw [filterOperator, Pull.filterMapM_next]
    cases hsel : selected clock p b with
    | error e =>
      refine .fail _ (.filter p child') e (enough_of_succ _ ⟨enough, ?_⟩)
      intro n hn
      simp only [pollNext, h n hn, hsel]
    | ok o =>
      cases o with
      | some out =>
        refine .next _ (.filter p child') out _ (enough_of_succ _ ⟨enough, ?_⟩) ih
        intro n hn
        simp only [pollNext, h n hn, hsel]
      | none =>
        -- an empty batch is not returned: the same call asks again
        refine yields_goesOn clock lexsort _ (.filter p child') _ ⟨enough, ?_⟩ ih
        intro n hn
        simp only [pollNext, h n hn, hsel]

theorem pollsTo_limit (remaining skip : Nat) (hgo : remaining ≠ 0) (child child' : Operator F)
    (r : Res (Option (RecordBatch F))) (h : PollsTo clock lexsort child r child')
    (hr : ∀ b, r ≠ .ok (some b)) :
    PollsTo clock lexsort (.limit remaining skip child) r (.limit remaining skip child') := by
  obtain ⟨enough, h⟩ := h
  apply enough_of_succ
  refine ⟨enough, ?_⟩
  intro n hn
  rw [pollNext, if_neg hgo, h n hn]
  cases r with
  | error e => rfl
  | ok o =>
    cases o with
    | none => rfl
    | some b => exact absurd rfl (hr b)

theorem yields_exhausted (skip : Nat) (child : Operator F) :
    Yields clock lexsort (.limit 0 skip child) .done := by
  have hnone : PollsTo clock lexsort (.limit 0 skip child) (.ok none) (.limit 0 skip child) :=
    enough_of_succ _ ⟨0, fun n _ => by rw [pollNext, if_pos rfl]⟩
  exact .done _ _ hnone hnone

theorem yields_limit (remaining skip : Nat) (child : Operator F) (s : Pull Stop (RecordBatch F))
    (h : Yields clock lexsort child s) :
    Yields clock lexsort (.limit remaining skip child) (limitOperator remaining skip s) := by
  -- the counters change from call to call
  induction h generalizing remaining skip with
  | done child child' h hrest =>
    change Yields clock lexsort _ .done
    by_cases hgo : remaining = 0
    · subst hgo
      exact yields_exhausted clock lexsort skip child
    · exact .done _ _ (pollsTo_limit clock lexsort remaining skip hgo _ _ _ h (by simp))
        (pollsTo_limit clock lexsort remaining skip hgo _ _ _ hrest (by simp))
  | fail child child' e h =>
    rw [limitOperator, Pull.transduce]
    by_cases hgo : remaining = 0
    · subst hgo
      exact yields_exhausted clock lexsort skip child
    · rw [if_neg (by simpa using hgo)]
      exact .fail _ _ e (pollsTo_limit clock lexsort remaining skip hgo _ _ _ h (by simp))
  | next child child' b rest h hrest ih =>
    rw [limitOperator, Pull.transduce]
    by_cases hgo : remaining = 0
    · subst hgo
      exact yields_exhausted clock lexsort skip child
    obtain ⟨enough, h⟩ := h
    rw [if_neg (by simpa using hgo)]
    cases hstep : limitStep (remaining, skip) b with
    | error e =>
      refine .fail _ (.limit remaining skip child') e (enough_of_succ _ ⟨enough, ?_⟩)
      intro n hn
      simp only [pollNext, if_neg hgo, h n hn, hstep]
    | ok out =>
      obtain ⟨⟨remaining', skip'⟩, o⟩ := out
      cases o with
      | some out =>
        refine .next _ (.limit remaining' skip' child') out _
          (enough_of_succ _ ⟨enough, ?_⟩) (ih remaining' skip')
        intro n hn
        simp only [pollNext, if_neg hgo, h n hn, hstep]
      | none =>
        refine yields_goesOn clock lexsort _ (.limit remaining' skip' child') _ ⟨enough, ?_⟩
          (ih remaining' skip')
        intro n hn
        simp only [pollNext, if_neg hgo, h n hn, hstep]

/-! ### Operators that drain their child -/

theorem drain_yields (op : Operator F) (s : Pull Stop (RecordBatch F))
    (h : Yields clock lexsort op s) :
    ∃ enough, ∀ n, enough ≤ n → drain clock lexsort n op = some s.collect := by
  induction h with
  | done op op' h hrest =>
    obtain ⟨enough, h⟩ := h
    apply enough_of_succ
    refine ⟨enough, ?_⟩
    intro n hn
    rw [drain, h n hn]
    rfl
  | fail op op' e h =>
    obtain ⟨enough, h⟩ := h
    apply enough_of_succ
    refine ⟨enough, ?_⟩
    intro n hn
    rw [drain, h n hn]
    rfl
  | next op op' b rest h hrest ih =>
    obtain ⟨enough, h⟩ := h
    obtain ⟨enough', ih⟩ := ih
    apply enough_of_succ
    refine ⟨max enough enough', ?_⟩
    intro n hn
    rw [drain, h n (by omega)]
    simp only [ih n (by omega), Option.map_some]
    rw [Pull.collect]
    cases rest.collect <;> rfl

theorem yields_aggregate (keys : List (Expr F)) (aggregates : List (AggExpr F))
    (child : Operator F) (s : Pull Stop (RecordBatch F)) (h : Yields clock lexsort child s) :
    Yields clock lexsort (.aggregate keys aggregates child)
      (aggregateOperator keys aggregates s) := by
  obtain ⟨enough, hdrain⟩ := drain_yields clock lexsort child s h
  have hmap : (s.collect >>= fun bs => (compute keys aggregates bs).map ([·])) =
      (s.collect >>= compute keys aggregates).map ([·]) := by
    cases s.collect <;> rfl
  rw [aggregateOperator, blocking, hmap]
  cases hout : s.collect >>= compute keys aggregates with
  | error e =>
    refine .fail _ (.aggregated none) e (enough_of_succ _ ⟨enough, ?_⟩)
    intro n hn
    simp only [pollNext, hdrain n hn, hout]
  | ok out =>
    have hnone : PollsTo clock lexsort (.aggregated none) (.ok none) (.aggregated none) :=
      enough_of_succ _ ⟨0, fun n _ => by rw [pollNext]⟩
    refine .next _ (.aggregated none) out _ (enough_of_succ _ ⟨enough, ?_⟩)
      (.done _ _ hnone hnone)
    intro n hn
    simp only [pollNext, hdrain n hn, hout]

theorem yields_sort (keys : List (Expr F × Bool)) (child : Operator F)
    (s : Pull Stop (RecordBatch F)) (h : Yields clock lexsort child s) :
    Yields clock lexsort (.sort keys child) (sortOperator lexsort keys s) := by
  obtain ⟨enough, hdrain⟩ := drain_yields clock lexsort child s h
  rw [sortOperator, blocking]
  cases hout : s.collect >>= materialize lexsort keys with
  | error e =>
    refine .fail _ (.sorted none) e (enough_of_succ _ ⟨enough, ?_⟩)
    intro n hn
    simp only [pollNext, hdrain n hn, hout]
  | ok out =>
    refine yields_goesOn clock lexsort _ (.sorted (some out)) _ ⟨enough, ?_⟩
      (yields_sorted clock lexsort out)
    intro n hn
    simp only [pollNext, hdrain n hn, hout]

end Poll

/-! ### Plans -/

section Plans
variable [FloatOps F] (env : Env F)

/-- `build_logical`: the scan loads its batches, and no other operator is asked for anything. -/
def buildOperator : LogicalPlan F → Res (Operator F)
  | .scan op => (loadBatches env op).map .scan
  | .filter predicate input => (buildOperator input).map (.filter predicate)
  | .aggregate keys aggregates input => (buildOperator input).map (.aggregate keys aggregates)
  | .sort keys input => (buildOperator input).map (.sort keys)
  | .limit n offset input => (buildOperator input).map (.limit n.toNat offset.toNat)
  | .project _ input => buildOperator input
  | .join _ _ _ _ => execution
      "cross-table JOIN requires distributed executor (Phase 3 local scope: single-table)"

/-- `build` and the loop of `execute`. -/
def runPlan (fuel : Nat) (plan : LogicalPlan F) : Option (Res (List (RecordBatch F))) :=
  match buildOperator env plan with
  | .error e => some (.error e)
  | .ok op => drain env.clock env.lexsort fuel op

/-- The operators of a plan are built when its stream is, and yield it. -/
def Realizes (r : Res (Operator F)) (s : Res (Pull Stop (RecordBatch F))) : Prop :=
  (∃ e, r = .error e ∧ s = .error e) ∨
    ∃ op stream, r = .ok op ∧ s = .ok stream ∧ Yields env.clock env.lexsort op stream

theorem realizes_map (r : Res (Operator F)) (s : Res (Pull Stop (RecordBatch F)))
    (h : Realizes env r s) (f : Operator F → Operator F)
    (g : Pull Stop (RecordBatch F) → Pull Stop (RecordBatch F))
    (hfg : ∀ op stream, Yields env.clock env.lexsort op stream →
      Yields env.clock env.lexsort (f op) (g stream)) : Realizes env (r.map f) (s.map g) := by
  obtain ⟨e, rfl, rfl⟩ | ⟨op, stream, rfl, rfl, hyields⟩ := h
  · exact Or.inl ⟨e, rfl, rfl⟩
  · exact Or.inr ⟨f op, g stream, rfl, rfl, hfg op stream hyields⟩

theorem realizes_build (plan : LogicalPlan F) :
    Realizes env (buildOperator env plan) (build env plan) := by
  induction plan with
  | scan op =>
    rw [buildOperator, build]
    cases loadBatches env op with
    | error e => exact Or.inl ⟨e, rfl, rfl⟩
    | ok bs => exact Or.inr ⟨_, _, rfl, rfl, yields_scan env.clock env.lexsort bs⟩
  | filter predicate input ih =>
    exact realizes_map env _ _ ih _ _ fun op s => yields_filter env.clock env.lexsort predicate op s
  | project columns input ih => exact ih
  | aggregate keys aggregates input ih =>
    exact realizes_map env _ _ ih _ _ fun op s =>
      yields_aggregate env.clock env.lexsort keys aggregates op s
  | sort keys input ih =>
    exact realizes_map env _ _ ih _ _ fun op s => yields_sort env.clock env.lexsort keys op s
  | limit n offset input ih =>
    exact realizes_map env _ _ ih _ _ fun op s =>
      yields_limit env.clock env.lexsort n.toNat offset.toNat op s
  | join kind left right condition ihl ihr => exact Or.inl ⟨_, rfl, rfl⟩

/-- The calls refine the streams: for every plan over any tables the operators are built exactly
when the plan's stream is, every call to them returns, they return the batches of the stream one
by one, then its failure, or nothing for ever, and so the loop of `execute` ends with the result
of the stream. -/
theorem polls_refine_streams (plan : LogicalPlan F) :
    Realizes env (buildOperator env plan) (build env plan) ∧
      ∃ enough, ∀ n, enough ≤ n → runPlan env n plan = some (executePlan env plan) := by
  refine ⟨realizes_build env plan, ?_⟩
  rw [executePlan]
  obtain ⟨e, hop, hs⟩ | ⟨op, stream, hop, hs, hyields⟩ := realizes_build env plan
  · refine ⟨0, ?_⟩
    intro n _
    rw [runPlan, hop, hs]
    rfl
  · obtain ⟨enough, hdrain⟩ := drain_yields env.clock env.lexsort op stream hyields
    refine ⟨enough, ?_⟩
    intro n hn
    rw [runPlan, hop, hs]
    exact hdrain n hn

end Plans

end InfraLens.Query
