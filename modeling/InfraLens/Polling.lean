import InfraLens.Limits

/-! `LimitOperator` call by call (executor/limit.rs): what each `poll_next` returns, over any
batches of its child. -/
namespace InfraLens.Query
open Schema Arrow LibPull

variable {F : Type}

/-- The operator, with the batches its child has yet to return. -/
structure LimitOperator (F : Type) where
  child : List (RecordBatch F)
  remaining : Nat
  skip : Nat

def LimitOperator.new (child : List (RecordBatch F)) (limit offset : Nat) : LimitOperator F :=
  ⟨child, limit, offset⟩

def limitLoop (remaining : Nat) :
    Nat → List (RecordBatch F) → Option (RecordBatch F) × LimitOperator F
  | skip, [] => (none, ⟨[], remaining, skip⟩)
  | skip, batch :: child =>
    let nrows := batch.numRows
    if nrows ≤ skip then limitLoop remaining (skip - nrows) child
    else
      let batch := if 0 < skip then batch.slice skip (nrows - skip) else batch
      let take := min batch.numRows remaining
      (some (batch.slice 0 take), ⟨child, remaining - take, 0⟩)

def LimitOperator.pollNext (op : LimitOperator F) : Option (RecordBatch F) × LimitOperator F :=
  if op.remaining = 0 then (none, op) else limitLoop op.remaining op.skip op.child

theorem pollNext_exhausted (child : List (RecordBatch F)) (m : Nat) :
    (LimitOperator.new child 0 m).pollNext = (none, LimitOperator.new child 0 m) := rfl

theorem pollNext_no_child (n m : Nat) :
    (LimitOperator.new ([] : List (RecordBatch F)) n m).pollNext = (none, .new [] n m) := by
  unfold LimitOperator.pollNext
  split <;> rfl

theorem pollNext_skip (b : RecordBatch F) (bs : List (RecordBatch F)) (n m : Nat) (hn : n ≠ 0)
    (h : b.numRows ≤ m) :
    (LimitOperator.new (b :: bs) n m).pollNext =
      (LimitOperator.new bs n (m - b.numRows)).pollNext := by
  simp only [LimitOperator.pollNext, LimitOperator.new, hn, if_false, limitLoop, h, if_true]

theorem pollNext_emit (b : RecordBatch F) (bs : List (RecordBatch F)) (n m : Nat) (hn : n ≠ 0)
    (h : m < b.numRows) :
    ∃ c, limitStep (n, m) b = .ok ((n - (b.numRows - m), 0), some c) ∧ 0 < c.numRows ∧
      (LimitOperator.new (b :: bs) n m).pollNext =
        (some c, .new bs (n - (b.numRows - m)) 0) := by
  obtain ⟨c, hstep, hrows⟩ := limitStep_emit n m b h
  have hc : 0 < c.numRows := by
    rw [← length_rows, hrows, List.length_take, List.length_drop, length_rows]
    omega
  refine ⟨c, hstep, hc, ?_⟩
  have hskip : ¬ b.numRows ≤ m := by omega
  simp only [limitStep, hskip, if_false, Except.ok.injEq, Prod.mk.injEq, Option.some.injEq] at hstep
  obtain ⟨⟨hleft, -⟩, hbatch⟩ := hstep
  simp only [LimitOperator.pollNext, LimitOperator.new, hn, if_false, limitLoop, hskip, hbatch,
    hleft]

theorem limitOperator_polls (bs : List (RecordBatch F)) (n m : Nat) :
    ∃ outs, limitOperator n m (Pull.ofList bs) = Pull.ofList outs ∧
      Answers LimitOperator.pollNext (.new bs n m) outs ∧ ∀ b ∈ outs, 0 < b.numRows := by
  -- what remains and what to skip change from batch to batch
  induction bs generalizing n m with
  | nil => exact ⟨[], rfl, answers_nil _ _ (pollNext_no_child n m), by simp⟩
  | cons b bs ih =>
    by_cases hn : n = 0
    · subst hn
      exact ⟨[], rfl, answers_nil _ _ (pollNext_exhausted (b :: bs) m), by simp⟩
    have hgo : ((n, m).1 == 0) = false := by simpa using hn
    by_cases hskip : b.numRows ≤ m
    · obtain ⟨outs, hpull, hpolls, hpos⟩ := ih n (m - b.numRows)
      refine ⟨outs, ?_, ?_, hpos⟩
      · have hstep : limitStep (n, m) b = .ok ((n, m - b.numRows), none) := if_pos hskip
        rw [Pull.ofList, limitOperator, Pull.transduce, hgo, hstep]
        exact hpull
      · intro i
        rw [answer_congr _ _ _ (pollNext_skip b bs n m hn hskip) i]
        exact hpolls i
    · obtain ⟨c, hstep, hc, hpoll⟩ := pollNext_emit b bs n m hn (Nat.lt_of_not_le hskip)
      obtain ⟨outs, hpull, hpolls, hpos⟩ := ih (n - (b.numRows - m)) 0
      refine ⟨c :: outs, ?_, answers_cons _ _ _ c outs hpoll hpolls, ?_⟩
      · rw [Pull.ofList, limitOperator, Pull.transduce, hgo, hstep, Pull.ofList]
        exact congrArg (Pull.next c) hpull
      · intro d hd
        cases List.mem_cons.mp hd with
        | inl he => exact he ▸ hc
        | inr hm => exact hpos d hm

theorem drop_eq_nil_of_rows (outs : List (RecordBatch F)) (hpos : ∀ b ∈ outs, 0 < b.numRows)
    (k : Nat) (h : (resultRows outs).length ≤ (resultRows (outs.take k)).length) :
    outs.drop k = [] := by
  have hsplit : resultRows outs = resultRows (outs.take k) ++ resultRows (outs.drop k) := by
    rw [resultRows, resultRows, resultRows, ← List.flatMap_append, List.take_append_drop]
  have hlen := congrArg List.length hsplit
  rw [List.length_append] at hlen
  cases hd : outs.drop k with
  | nil => rfl
  | cons d ds =>
    have hd' : 0 < d.numRows := hpos d (List.mem_of_mem_drop (hd ▸ List.mem_cons_self))
    rw [hd, length_resultRows_cons] at hlen
    omega

/-- The calls return the rows after the offset up to the limit, in batches none of which is
empty, and nothing once that many rows are out. -/
theorem limit_slices (bs : List (RecordBatch F)) (n m : Nat) :
    (∃ outs, Answers LimitOperator.pollNext (.new bs n m) outs ∧
      resultRows outs = ((resultRows bs).drop m).take n ∧ ∀ b ∈ outs, 0 < b.numRows) ∧
    ∀ k, (resultRows (firstAnswers LimitOperator.pollNext k (.new bs n m))).length = n →
      ∀ i, k ≤ i → answer LimitOperator.pollNext i (.new bs n m) = none := by
  obtain ⟨outs, hpull, hpolls, hpos⟩ := limitOperator_polls bs n m
  have hrows : resultRows outs = ((resultRows bs).drop m).take n := by
    obtain ⟨outs', hout, hrows⟩ :=
      limitOperator_rows (Pull.ofList bs) n m bs (Pull.collect_ofList bs)
    rw [hpull, Pull.collect_ofList] at hout
    cases hout
    exact hrows
  refine ⟨⟨outs, hpolls, hrows, hpos⟩, ?_⟩
  intro k hk i hi
  rw [firstAnswers_eq _ _ outs hpolls] at hk
  have hnone : outs.drop k = [] := by
    apply drop_eq_nil_of_rows outs hpos k
    rw [hk, hrows]
    exact List.length_take_le _ _
  rw [hpolls i, List.getElem?_eq_none]
  have hshort := List.drop_eq_nil_iff.mp hnone
  omega

end InfraLens.Query
