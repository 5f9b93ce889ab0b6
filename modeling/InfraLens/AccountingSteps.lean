import InfraLens.Accounting
import Mathlib.Tactic.Abel

/-! Every safe step of the engine is, for each signal, a step of the ledger; so the
ledger balances in every state a run of safe steps reaches. -/
namespace InfraLens.Storage
open Model LibRun LibLedger

variable {ι ρ : Type} [Fintype ι]

/-- One signal moves as the ledger allows. -/
abbrev LedgerStep (env : Env ρ) (s t : Engine ι ρ) (sig : SignalType) : Prop :=
  Step FlushRequest.imm FlushRequest.partition (s.view env sig) (t.view env sig)

/-- What the code takes for granted of the state a step is taken in: a freeze replaces
the memtable it tested, a drain finds no writer that has still to insert a record of the
signal, and an empty memtable that is let go is no writer's. -/
def Safe (env : Env ρ) (s : Engine ι ρ) : Action ι ρ → Prop
  | .replace i => ∀ f ∈ (s.writers i).pc.filled, s.memtables.lookup f.1 = some f.2
  | .flush => ∀ w ∈ s.worker, ∀ n ∈ w.2.next, ∀ i, ∀ x ∈ (s.writers i).pc.target,
      x.2 = w.1.imm → env.signalType x.1 ≠ n.1
  | .remove => ∀ key ∈ s.closer.nextKey, ∀ mem ∈ s.memtables.lookup key,
      (s.heap mem).isEmpty = true → ∀ i, ∀ x ∈ (s.writers i).pc.target, x.2 ≠ mem
  | _ => True

instance (env : Env ρ) (s : Engine ι ρ) : (a : Action ι ρ) → Decidable (Safe env s a)
  | .replace i => inferInstanceAs (Decidable
      (∀ f ∈ (s.writers i).pc.filled, s.memtables.lookup f.1 = some f.2))
  | .flush => inferInstanceAs (Decidable
      (∀ w ∈ s.worker, ∀ n ∈ w.2.next, ∀ i, ∀ x ∈ (s.writers i).pc.target,
        x.2 = w.1.imm → env.signalType x.1 ≠ n.1))
  | .remove => (Option.decidableForallMem _ : Decidable
      (∀ key ∈ s.closer.nextKey, ∀ mem ∈ s.memtables.lookup key,
        (s.heap mem).isEmpty = true → ∀ i, ∀ x ∈ (s.writers i).pc.target, x.2 ≠ mem))
  | .begin _ _ | .fetch _ | .append _ | .insert _ | .test _ | .enqueue _ | .finish _
  | .recv | .flushError | .checkpoint | .close | .listKeys | .send | .ret => .isTrue trivial

/-- The ledgers balance, and a writer inserts only into a memtable that is held. -/
structure Inv (env : Env ρ) (s : Engine ι ρ) : Prop where
  balanced : ∀ sig, Balanced FlushRequest.imm FlushRequest.partition (s.view env sig)
  target : ∀ i r mem, (s.writers i).pc.target = some (r, mem) →
    (⟨mem, env.key r⟩ : FlushRequest) ∈ s.holders (env.signalType r)

/-! ### Holders under a step -/

section Holders
variable (s : Engine ι ρ) (sig : SignalType)

theorem holders_recv (req : FlushRequest) (queue : List FlushRequest) (hw : s.worker = none)
    (hq : s.queue = req :: queue) :
    Engine.holders { s with worker := some (req, .logs), queue := queue } sig =
      s.holders sig := by
  have hf : undrained [(req, Stage.logs)] sig = {req} :=
    undrained_cons_pending req .logs [] sig rfl
  simp only [Engine.holders, Engine.inHand, Engine.active, Engine.underFlush, Engine.orphaned,
    Option.toList_some, hf, hw, hq, Option.toList_none, undrained_nil, ← Multiset.cons_coe,
    ← Multiset.singleton_add]
  abel

theorem holders_flushError (req : FlushRequest) (stage : Stage)
    (hw : s.worker = some (req, stage)) :
    Engine.holders { s with worker := none, orphans := (req, stage) :: s.orphans } sig =
      s.holders sig := by
  cases hp : stage.pending sig with
  | true =>
    simp only [Engine.holders, Engine.inHand, Engine.active, Engine.underFlush,
      Engine.orphaned, hw, Option.toList_some, Option.toList_none,
      undrained_cons_pending _ _ _ _ hp, undrained_nil]
    abel
  | false =>
    simp only [Engine.holders, Engine.inHand, Engine.active, Engine.underFlush,
      Engine.orphaned, hw, Option.toList_some, Option.toList_none,
      undrained_cons_drained _ _ _ _ hp, undrained_nil]

theorem holders_checkpoint (req : FlushRequest) (hw : s.worker = some (req, .checkpoint)) :
    Engine.holders { s with worker := none } sig = s.holders sig := by
  have hu := underFlush_checkpoint s sig req hw
  simp only [Engine.underFlush] at hu
  simp only [Engine.holders, Engine.inHand, Engine.active, Engine.underFlush, Engine.orphaned,
    hu, Option.toList_none, undrained_nil]

theorem holders_closer (c : Closer) (hc : s.closer.hand = c.hand) :
    Engine.holders { s with closer := c } sig = s.holders sig := by
  simp only [Engine.holders, Engine.inHand, Engine.active, Engine.underFlush, Engine.orphaned, hc]

theorem holders_remove (key : UInt64) (mem : Nat) (keys : List UInt64)
    (hl : s.memtables.lookup key = some mem) (hc : s.closer.hand = 0) :
    Engine.holders { s with
      memtables := s.memtables.erase key, closer := .sending mem key keys } sig =
      s.holders sig := by
  simp only [Engine.holders, Engine.inHand, Engine.active, Engine.underFlush, Engine.orphaned,
    hc, activeOf_erase _ _ _ hl, Closer.hand_sending]
  abel

theorem holders_letGo (key : UInt64) (mem : Nat) (keys : List UInt64)
    (hl : s.memtables.lookup key = some mem) (hc : s.closer.hand = 0) :
    s.holders sig = (⟨mem, key⟩ : FlushRequest) ::ₘ
      Engine.holders { s with
        memtables := s.memtables.erase key, closer := .flushing keys } sig := by
  rw [← Multiset.singleton_add]
  simp only [Engine.holders, Engine.inHand, Engine.active, Engine.underFlush, Engine.orphaned,
    hc, activeOf_erase _ _ _ hl, Closer.hand_flushing]
  abel

theorem holders_send (key : UInt64) (mem : Nat) (keys : List UInt64)
    (hc : s.closer.hand = {⟨mem, key⟩}) :
    Engine.holders { s with queue := s.queue ++ [⟨mem, key⟩], closer := .flushing keys } sig =
      s.holders sig := by
  simp only [Engine.holders, Engine.inHand, Engine.active, Engine.underFlush, Engine.orphaned,
    hc, Closer.hand_flushing, ← Multiset.coe_add, Multiset.coe_singleton]
  abel

end Holders

section Hands
variable [DecidableEq ι] (s : Engine ι ρ) (sig : SignalType)

theorem sum_hand_same (w : ι → Writer ρ) (i : ι) (v : Writer ρ) (h : (w i).pc.hand = v.pc.hand) :
    (∑ j, (Function.update w i v j).pc.hand) = ∑ j, (w j).pc.hand := by
  have hs := sum_update w i v (fun u => u.pc.hand)
  rw [h] at hs
  exact add_right_cancel hs

theorem sum_hand_take (w : ι → Writer ρ) (i : ι) (v : Writer ρ) (c : FlushRequest)
    (h : (w i).pc.hand = 0) (hv : v.pc.hand = {c}) :
    (∑ j, (Function.update w i v j).pc.hand) = (∑ j, (w j).pc.hand) + {c} := by
  have hs := sum_update w i v (fun u => u.pc.hand)
  rwa [h, hv, add_zero] at hs

theorem sum_hand_give (w : ι → Writer ρ) (i : ι) (v : Writer ρ) (c : FlushRequest)
    (h : (w i).pc.hand = {c}) (hv : v.pc.hand = 0) :
    (∑ j, (Function.update w i v j).pc.hand) + {c} = ∑ j, (w j).pc.hand := by
  have hs := sum_update w i v (fun u => u.pc.hand)
  rwa [h, hv, add_zero] at hs

theorem holders_setWriter (i : ι) (w : Writer ρ) (h : (s.writers i).pc.hand = w.pc.hand) :
    (s.setWriter i w).holders sig = s.holders sig := by
  have hs := sum_hand_same s.writers i w h
  simp only [Engine.holders, Engine.inHand, Engine.active, Engine.underFlush, Engine.orphaned,
    Engine.setWriter, hs]

theorem holders_fetchNew (env : Env ρ) (i : ι) (key : UInt64) (w : Writer ρ)
    (hl : s.memtables.lookup key = none) (h : (s.writers i).pc.hand = w.pc.hand) :
    ((s.alloc env key).setWriter i w).holders sig =
      (⟨s.nextId, key⟩ : FlushRequest) ::ₘ s.holders sig := by
  have hs := sum_hand_same s.writers i w h
  simp only [Engine.holders, Engine.inHand, Engine.active, Engine.underFlush, Engine.orphaned,
    Engine.setWriter, Engine.alloc, hs, activeOf_insert_new _ _ _ hl]
  rw [← Multiset.singleton_add]
  abel

theorem holders_replace (env : Env ρ) (i : ι) (key : UInt64) (mem : Nat) (w : Writer ρ)
    (hl : s.memtables.lookup key = some mem) (h : (s.writers i).pc.hand = 0)
    (hw : w.pc.hand = {⟨mem, key⟩}) :
    ((s.alloc env key).setWriter i w).holders sig =
      (⟨s.nextId, key⟩ : FlushRequest) ::ₘ s.holders sig := by
  have hs := sum_hand_take s.writers i w _ h hw
  simp only [Engine.holders, Engine.inHand, Engine.active, Engine.underFlush, Engine.orphaned,
    Engine.setWriter, Engine.alloc, hs, activeOf_insert, activeOf_erase _ _ _ hl]
  rw [← Multiset.singleton_add]
  abel

theorem holders_enqueue (i : ι) (c : FlushRequest) (w : Writer ρ)
    (h : (s.writers i).pc.hand = {c}) (hw : w.pc.hand = 0) :
    Engine.holders { s.setWriter i w with queue := s.queue ++ [c] } sig = s.holders sig := by
  have hs := sum_hand_give s.writers i w c h hw
  simp only [Engine.holders, Engine.inHand, Engine.active, Engine.underFlush, Engine.orphaned,
    Engine.setWriter, ← Multiset.coe_add, Multiset.coe_singleton, ← hs]
  abel

theorem holders_dropped (i : ι) (c : FlushRequest) (w : Writer ρ)
    (h : (s.writers i).pc.hand = {c}) (hw : w.pc.hand = 0) :
    Engine.holders { s.setWriter i w with orphans := (c, .logs) :: s.orphans } sig =
      s.holders sig := by
  have hs := sum_hand_give s.writers i w c h hw
  have ho := undrained_cons_pending c .logs s.orphans sig rfl
  simp only [Engine.holders, Engine.inHand, Engine.active, Engine.underFlush, Engine.orphaned,
    Engine.setWriter, ← hs, ho]
  abel

end Hands

/-! ### The steps -/

/-- What a step keeps: every signal moves as its ledger allows, and writers still insert
into held memtables only. -/
structure Advance (env : Env ρ) (s t : Engine ι ρ) : Prop where
  ledger : ∀ sig, LedgerStep env s t sig
  target : ∀ i r mem, (t.writers i).pc.target = some (r, mem) →
    (⟨mem, env.key r⟩ : FlushRequest) ∈ t.holders (env.signalType r)

/-- What the ledgers read of a state, the holders apart. -/
def Engine.books (s : Engine ι ρ) :
    Nat × (Nat → MemTable) × List (Nat × SignalType) × List (SSTable ρ) × List ρ :=
  (s.nextId, s.heap, s.drained, s.sstables, s.written)

theorem advance_keep (env : Env ρ) (s t : Engine ι ρ) (hinv : Inv env s)
    (hb : t.books = s.books) (hh : ∀ sig, t.holders sig = s.holders sig)
    (ht : ∀ i x, (t.writers i).pc.target = some x → (s.writers i).pc.target = some x) :
    Advance env s t := by
  simp only [Engine.books, Prod.mk.injEq] at hb
  obtain ⟨hid, hheap, hd, hs, hw⟩ := hb
  refine ⟨?_, ?_⟩
  · intro sig
    apply Step.keep
    simp only [Engine.view, Engine.drainedOf, Engine.registered, hid, hheap, hd, hs, hw, hh]
  · intro i r mem h
    rw [hh]
    exact hinv.target i r mem (ht i _ h)

section WriterSteps
variable [DecidableEq ι] (env : Env ρ) (s : Engine ι ρ) (i : ι)

omit [Fintype ι] in
theorem target_update (writers : ι → Writer ρ) (w : Writer ρ)
    (h : w.pc.target = none ∨ w.pc.target = (writers i).pc.target) (j : ι) (x : ρ × Nat)
    (hx : (Function.update writers i w j).pc.target = some x) :
    (writers j).pc.target = some x := by
  by_cases hj : j = i
  · subst hj
    rw [Function.update_self] at hx
    cases h with
    | inl h => simp [h] at hx
    | inr h => exact h ▸ hx
  · rwa [Function.update_of_ne hj] at hx

theorem advance_setWriter (hinv : Inv env s) (w : Writer ρ)
    (hh : (s.writers i).pc.hand = w.pc.hand)
    (ht : w.pc.target = none ∨ w.pc.target = (s.writers i).pc.target) :
    Advance env s (s.setWriter i w) :=
  advance_keep env s _ hinv rfl (fun sig => holders_setWriter s sig i w hh)
    (target_update i s.writers w ht)

theorem advance_alloc (hinv : Inv env s) (key : UInt64) (w : Writer ρ)
    (hh : ∀ sig, ((s.alloc env key).setWriter i w).holders sig =
      (⟨s.nextId, key⟩ : FlushRequest) ::ₘ s.holders sig)
    (ht : ∀ r mem, w.pc.target = some (r, mem) → env.key r = key ∧ mem = s.nextId) :
    Advance env s ((s.alloc env key).setWriter i w) := by
  refine ⟨?_, ?_⟩
  · intro sig
    refine Step.alloc ⟨s.nextId, key⟩ (lt_irrefl s.nextId) ?_ (hh sig) rfl ?_ ?_ rfl rfl
    · ext n
      change n < s.nextId + 1 ↔ n = s.nextId ∨ n < s.nextId
      omega
    · simp [Engine.view, Engine.setWriter, Engine.alloc]
    · intro n hn
      have hne : n ≠ s.nextId := Nat.ne_of_lt hn
      simp [Engine.view, Engine.setWriter, Engine.alloc, Function.update_of_ne hne]
  · intro j r mem h
    rw [hh, Multiset.mem_cons]
    by_cases hj : j = i
    · subst hj
      have hw : w.pc.target = some (r, mem) := by
        simpa [Engine.setWriter, Engine.alloc] using h
      obtain ⟨hk, hm⟩ := ht r mem hw
      exact Or.inl (by rw [hk, hm])
    · have hold : (s.writers j).pc.target = some (r, mem) := by
        simpa [Engine.setWriter, Engine.alloc, Function.update_of_ne hj] using h
      exact Or.inr (hinv.target j r mem hold)

theorem advance_fetchOld (hinv : Inv env s) (done : List ρ) (r : ρ) (todo : List ρ) (mem : Nat)
    (hw : s.writers i = ⟨.loop, done, r :: todo⟩)
    (hl : s.memtables.lookup (env.key r) = some mem) :
    Advance env s (s.setWriter i ⟨.fetched r mem, done, todo⟩) := by
  have hh : ∀ sig, (s.setWriter i ⟨.fetched r mem, done, todo⟩).holders sig = s.holders sig :=
    fun sig => holders_setWriter s sig i _ (by rw [hw]; rfl)
  refine ⟨?_, ?_⟩
  · intro sig
    apply Step.keep
    simp only [Engine.view, hh]
    rfl
  · intro j r' mem' h
    rw [hh]
    by_cases hj : j = i
    · subst hj
      have he : some (r, mem) = some (r', mem') := by simpa [Engine.setWriter, Pc.target] using h
      cases he
      have ha := mem_activeOf s.memtables (env.key r) mem hl
      simp only [Engine.holders, Engine.active, Multiset.mem_add, ha, true_or]
    · refine hinv.target j r' mem' ?_
      simpa [Engine.setWriter, Function.update_of_ne hj] using h

theorem advance_insert (hinv : Inv env s) (r : ρ) (mem : Nat) (done todo : List ρ)
    (hw : s.writers i = ⟨.appended r mem, done, todo⟩) :
    Advance env s { s.setWriter i ⟨.inserted (env.key r) mem, done ++ [r], todo⟩ with
      heap := Function.update s.heap mem (env.write (s.heap mem) r)
      written := s.written ++ [r] } := by
  have hh : ∀ sig, (s.setWriter i ⟨.inserted (env.key r) mem, done ++ [r], todo⟩).holders sig =
      s.holders sig := fun sig => holders_setWriter s sig i _ (by rw [hw]; rfl)
  refine ⟨?_, ?_⟩
  · intro sig
    by_cases hsig : env.signalType r = sig
    · subst hsig
      refine Step.put ⟨mem, env.key r⟩ ((env.reread r).toList : Multiset ρ) ?_ ?_ ?_ rfl (hh _)
        rfl rfl (survivors_snoc_same env s.written r)
      · exact hinv.target i r mem (by rw [hw]; rfl)
      · simp [Engine.view, decoded_write_same]
      · intro n hn
        simp [Engine.view, Function.update_of_ne hn]
    · have hcontents : (fun m => env.decoded
          (Function.update s.heap mem (env.write (s.heap mem) r) m) sig) =
          fun m => env.decoded (s.heap m) sig := by
        funext m
        by_cases hm : m = mem
        · subst hm
          rw [Function.update_self, decoded_write_other env _ r sig hsig]
        · rw [Function.update_of_ne hm]
      apply Step.keep
      simp only [Engine.view, hcontents, survivors_snoc_other env s.written r sig hsig]
      congr 1
      exact hh sig
  · intro j r' mem' h
    have hj := target_update i s.writers ⟨.inserted (env.key r) mem, done ++ [r], todo⟩
      (Or.inl rfl) j (r', mem') h
    exact (hh (env.signalType r')).symm ▸ hinv.target j r' mem' hj

end WriterSteps

section WorkerSteps
variable (env : Env ρ) (s : Engine ι ρ)

omit [Fintype ι] in
theorem registered_flushSignal (req : FlushRequest) (sig : SignalType) :
    (s.flushSignal env req sig).registered sig = s.registered sig +
      (env.decoded (s.heap req.imm) sig).map (Prod.mk req.partition) := by
  by_cases hrows : (s.heap req.imm).drainSignal sig.toU8 = []
  · simp [Engine.flushSignal, hrows, Env.decoded, Env.decodeRows]
  · simp [Engine.flushSignal, hrows, Engine.registered, Env.decoded, ← Multiset.coe_add]

omit [Fintype ι] in
theorem registered_flushSignal_other (req : FlushRequest) (sig sig' : SignalType)
    (h : sig ≠ sig') : (s.flushSignal env req sig).registered sig' = s.registered sig' := by
  by_cases hrows : (s.heap req.imm).drainSignal sig.toU8 = []
  · simp [Engine.flushSignal, hrows]
  · simp [Engine.flushSignal, hrows, Engine.registered, h]

omit [Fintype ι] in
theorem flushSignal_eq (req : FlushRequest) (sig : SignalType) :
    ∃ tables seqs, s.flushSignal env req sig = { s with sstables := tables, nextSeq := seqs } := by
  by_cases hrows : (s.heap req.imm).drainSignal sig.toU8 = []
  · exact ⟨s.sstables, s.nextSeq, by rw [Engine.flushSignal, if_pos hrows]⟩
  · exact ⟨_, _, by rw [Engine.flushSignal, if_neg hrows]⟩

theorem holders_drain (t : Engine ι ρ) (req : FlushRequest) (stage stage' : Stage)
    (sig : SignalType) (hw : s.worker = some (req, stage)) (hw' : t.worker = some (req, stage'))
    (hn : stage.next = some (sig, stage')) (hm : t.memtables = s.memtables)
    (hwr : t.writers = s.writers) (hc : t.closer = s.closer) (hq : t.queue = s.queue)
    (ho : t.orphans = s.orphans) :
    s.holders sig = req ::ₘ t.holders sig ∧
      ∀ sig', sig' ≠ sig → t.holders sig' = s.holders sig' := by
  obtain ⟨hpend, hdone, hsame⟩ := next_pending stage stage' sig hn
  refine ⟨?_, ?_⟩
  · rw [← Multiset.singleton_add]
    simp only [Engine.holders, Engine.inHand, Engine.active, Engine.underFlush,
      Engine.orphaned, hw, hw', hm, hwr, hc, hq, ho, Option.toList_some,
      undrained_cons_pending _ _ _ _ hpend, undrained_cons_drained _ _ _ _ hdone, undrained_nil]
    abel
  · intro sig' hne
    have hp : undrained [(req, stage')] sig' = undrained [(req, stage)] sig' := by
      have hs := hsame sig' hne
      cases hp : stage.pending sig' with
      | true =>
        rw [undrained_cons_pending _ _ _ _ (hs.trans hp), undrained_cons_pending _ _ _ _ hp]
      | false =>
        rw [undrained_cons_drained _ _ _ _ (hs.trans hp), undrained_cons_drained _ _ _ _ hp]
    simp only [Engine.holders, Engine.inHand, Engine.active, Engine.underFlush,
      Engine.orphaned, hw, hw', hm, hwr, hc, hq, ho, Option.toList_some, hp]

theorem advance_drain (t : Engine ι ρ) (hinv : Inv env s) (hsafe : Safe env s .flush)
    (req : FlushRequest) (stage : Stage) (sig : SignalType) (stage' : Stage)
    (hw : s.worker = some (req, stage)) (hn : stage.next = some (sig, stage'))
    (hheld : s.holders sig = req ::ₘ t.holders sig)
    (hother : ∀ sig', sig' ≠ sig → t.holders sig' = s.holders sig')
    (hd : t.drained = (req.imm, sig) :: s.drained) (hheap : t.heap = s.heap)
    (hid : t.nextId = s.nextId) (hwr : t.writers = s.writers) (hwritten : t.written = s.written)
    (hreg : t.registered sig = s.registered sig +
      (env.decoded (s.heap req.imm) sig).map (Prod.mk req.partition))
    (hregOther : ∀ sig', sig ≠ sig' → t.registered sig' = s.registered sig') :
    Advance env s t := by
  refine ⟨?_, ?_⟩
  · intro sig'
    by_cases hne : sig' = sig
    · subst hne
      refine Step.drain req ?_ hheld ?_ ?_ hreg ?_
      · simp only [Engine.view, hid]
      · simp [Engine.view, Engine.drainedOf, hd]
      · simp only [Engine.view, hheap]
      · simp only [Engine.view, hwritten]
    · have hne' : sig ≠ sig' := fun he => hne he.symm
      apply Step.keep
      simp only [Engine.view, Engine.drainedOf, hid, hother sig' hne, hd, hheap,
        hregOther sig' hne', hwritten, List.filter_cons, hne', decide_false, Bool.false_eq_true,
        if_false]
  · intro i r mem ht
    rw [hwr] at ht
    have hmem := hinv.target i r mem ht
    by_cases hne : env.signalType r = sig
    · rw [hne] at hmem ⊢
      rw [hheld, Multiset.mem_cons] at hmem
      refine hmem.resolve_left ?_
      intro he
      have himm : mem = req.imm := congrArg FlushRequest.imm he
      exact hsafe (req, stage) hw (sig, stage') hn i (r, mem) ht himm hne
    · rw [hother _ hne]
      exact hmem

theorem advance_flush (hinv : Inv env s) (hsafe : Safe env s .flush) (req : FlushRequest)
    (stage : Stage) (sig : SignalType) (stage' : Stage) (hw : s.worker = some (req, stage))
    (hn : stage.next = some (sig, stage')) :
    Advance env s { s.flushSignal env req sig with
      worker := some (req, stage'), drained := (req.imm, sig) :: s.drained } := by
  have hreg := registered_flushSignal env s req sig
  have hregOther := registered_flushSignal_other env s req sig
  obtain ⟨tables, seqs, he⟩ := flushSignal_eq env s req sig
  rw [he] at hreg hregOther ⊢
  obtain ⟨hheld, hother⟩ := holders_drain s
    { s with
      sstables := tables
      nextSeq := seqs
      worker := some (req, stage')
      drained := (req.imm, sig) :: s.drained }
    req stage stage' sig hw rfl hn rfl rfl rfl rfl rfl
  exact advance_drain env s _ hinv hsafe req stage sig stage' hw hn hheld hother rfl rfl rfl rfl
    rfl hreg hregOther

theorem advance_letGo (hinv : Inv env s) (hsafe : Safe env s .remove) (key : UInt64)
    (keys : List UInt64) (mem : Nat) (hc : s.closer = .flushing (key :: keys))
    (hl : s.memtables.lookup key = some mem) (he : (s.heap mem).isEmpty = true) :
    Advance env s { s with memtables := s.memtables.erase key, closer := .flushing keys } := by
  have hh : ∀ sig, _ := fun sig => holders_letGo s sig key mem keys hl (by rw [hc]; rfl)
  refine ⟨?_, ?_⟩
  · intro sig
    exact Step.drop ⟨mem, key⟩ (decoded_of_isEmpty env _ sig he) rfl (hh sig) rfl rfl rfl rfl
  · intro i r mem' ht
    have hmem := hinv.target i r mem' ht
    rw [hh, Multiset.mem_cons] at hmem
    refine hmem.resolve_left ?_
    intro heq
    have himm : mem' = mem := congrArg FlushRequest.imm heq
    exact hsafe key (by rw [hc]; rfl) mem hl he i (r, mem') ht himm

end WorkerSteps

section Runs
variable [DecidableEq ι] (env : Env ρ) (s : Engine ι ρ) (a : Action ι ρ) (t : Engine ι ρ)

theorem advance_of_stepped (hinv : Inv env s) (hsafe : Safe env s a) (h : Stepped env s a t) :
    Advance env s t := by
  cases h with
  | refused i batch hpc hc =>
    exact advance_keep env s s hinv rfl (fun _ => rfl) (fun _ _ h => h)
  | begin i batch hpc hc =>
    exact advance_setWriter env s i hinv _ (by rw [hpc]; rfl) (Or.inl rfl)
  | fetchOld i done r todo mem hw hl =>
    exact advance_fetchOld env s i hinv done r todo mem hw hl
  | fetchNew i done r todo hw hl =>
    refine advance_alloc env s i hinv (env.key r) _ ?_ ?_
    · intro sig
      exact holders_fetchNew s sig env i (env.key r) _ hl (by rw [hw]; rfl)
    · intro r' mem' he
      cases he
      exact ⟨rfl, rfl⟩
  | append i r mem done todo hw =>
    refine advance_keep env s _ hinv rfl ?_ ?_
    · intro sig
      exact holders_setWriter s sig i _ (by rw [hw]; rfl)
    · exact target_update i s.writers _ (Or.inr (by rw [hw]; rfl))
  | insert i r mem done todo hw => exact advance_insert env s i hinv r mem done todo hw
  | testFull i key mem done todo hw hf =>
    exact advance_setWriter env s i hinv _ (by rw [hw]; rfl) (Or.inl rfl)
  | testRoom i key mem done todo hw hf =>
    exact advance_setWriter env s i hinv _ (by rw [hw]; rfl) (Or.inl rfl)
  | replace i key mem done todo hw =>
    have hl := hsafe (key, mem) (by rw [hw]; rfl)
    refine advance_alloc env s i hinv key _ ?_ (by intro _ _ he; cases he)
    intro sig
    exact holders_replace s sig env i key mem _ hl (by rw [hw]; rfl) rfl
  | enqueue i key mem done todo hw hq =>
    refine advance_keep env s _ hinv rfl ?_ ?_
    · intro sig
      exact holders_enqueue s sig i ⟨mem, key⟩ _ (by rw [hw]; rfl) rfl
    · exact target_update i s.writers _ (Or.inl rfl)
  | dropped i key mem done todo hw hq =>
    refine advance_keep env s _ hinv rfl ?_ ?_
    · intro sig
      exact holders_dropped s sig i ⟨mem, key⟩ _ (by rw [hw]; rfl) rfl
    · exact target_update i s.writers _ (Or.inl rfl)
  | finish i done hw =>
    refine advance_keep env s _ hinv rfl ?_ ?_
    · intro sig
      exact holders_setWriter s sig i _ (by rw [hw]; rfl)
    · exact target_update i s.writers _ (Or.inl rfl)
  | recv req queue hw hq =>
    exact advance_keep env s _ hinv rfl
      (fun sig => holders_recv s sig req queue hw hq) (fun _ _ h => h)
  | flush req stage sig stage' hw hn =>
    exact advance_flush env s hinv hsafe req stage sig stage' hw hn
  | flushError req stage sig stage' hw hn =>
    exact advance_keep env s _ hinv rfl
      (fun sig => holders_flushError s sig req stage hw) (fun _ _ h => h)
  | checkpoint req hw hwal =>
    exact advance_keep env s _ hinv rfl
      (fun sig => holders_checkpoint s sig req hw) (fun _ _ h => h)
  | noWal req hw hwal =>
    exact advance_keep env s _ hinv rfl
      (fun sig => holders_checkpoint s sig req hw) (fun _ _ h => h)
  | close hc =>
    exact advance_keep env s _ hinv rfl
      (fun sig => holders_closer s sig .closing (by rw [hc]; rfl)) (fun _ _ h => h)
  | listKeys hc =>
    exact advance_keep env s _ hinv rfl
      (fun sig => holders_closer s sig _ (by rw [hc]; rfl)) (fun _ _ h => h)
  | absent key keys hc hl =>
    exact advance_keep env s _ hinv rfl
      (fun sig => holders_closer s sig _ (by rw [hc]; rfl)) (fun _ _ h => h)
  | letGo key keys mem hc hl he =>
    exact advance_letGo env s hinv hsafe key keys mem hc hl he
  | remove key keys mem hc hl he =>
    exact advance_keep env s _ hinv rfl
      (fun sig => holders_remove s sig key mem keys hl (by rw [hc]; rfl)) (fun _ _ h => h)
  | send mem key keys hc hq =>
    exact advance_keep env s _ hinv rfl
      (fun sig => holders_send s sig key mem keys (by rw [hc]; rfl)) (fun _ _ h => h)
  | ret hc =>
    exact advance_keep env s _ hinv rfl
      (fun sig => holders_closer s sig _ (by rw [hc]; rfl)) (fun _ _ h => h)

theorem inv_step (hinv : Inv env s) (hsafe : Safe env s a) (h : step env s a = some t) :
    Inv env t := by
  have hadv := advance_of_stepped env s a t hinv hsafe (stepped_of_step env s a t h)
  refine ⟨?_, hadv.target⟩
  intro sig
  exact balanced_step _ _ _ _ (hinv.balanced sig) (hadv.ledger sig)

omit [DecidableEq ι] in
theorem inv_open : Inv env (Engine.open env : Engine ι ρ) := by
  refine ⟨?_, ?_⟩
  · intro sig
    have hheld : (Engine.open env : Engine ι ρ).holders sig = 0 := by
      simp only [Engine.holders, Engine.inHand, Engine.open, Pc.hand, Finset.sum_const_zero]
      rfl
    have hids : Ledger.ids FlushRequest.imm ((Engine.open env : Engine ι ρ).view env sig) = 0 := by
      rw [Ledger.ids, Engine.view, hheld]
      rfl
    refine ⟨?_, ?_, ?_, ?_⟩
    · rw [hids]
      exact Multiset.nodup_zero
    · rw [hids]
      exact fun n hn => absurd hn (Multiset.notMem_zero n)
    · exact fun n hn => absurd hn (Nat.not_lt_zero n)
    · rw [Engine.view, hheld]
      rfl
  · intro i r mem h
    simp [Engine.open, Pc.target] at h

end Runs

/-- What was written is in the active memtables, in frozen ones, in SSTables, or in
memtables whose flush was dropped or failed. -/
theorem written_eq (env : Env ρ) (s : Engine ι ρ) (hinv : Inv env s) (sig : SignalType) :
    s.contents env sig s.active + s.contents env sig (s.frozen sig) +
      s.contents env sig (s.orphaned sig) + s.registered sig = env.survivors s.written sig := by
  have hbal : s.contents env sig (s.holders sig) + s.registered sig =
      env.survivors s.written sig := (hinv.balanced sig).balance
  have hsplit : s.holders sig = s.active + s.frozen sig + s.orphaned sig := by
    simp only [Engine.holders, Engine.frozen, add_assoc]
  rw [← hbal, hsplit, contents_add, contents_add]

end InfraLens.Storage
