import InfraLens.Engine

/-! Every way the engine can move, case by case with its guards: the one place where
the step function is taken apart. -/
namespace InfraLens.Storage
open Model WalFile

variable {ι ρ : Type} [DecidableEq ι]

inductive Stepped (env : Env ρ) (s : Engine ι ρ) : Action ι ρ → Engine ι ρ → Prop
  | refused (i : ι) (batch : List ρ) (hpc : (s.writers i).pc = .idle) (hc : s.closed = true) :
      Stepped env s (.begin i batch) s
  | begin (i : ι) (batch : List ρ) (hpc : (s.writers i).pc = .idle) (hc : s.closed = false) :
      Stepped env s (.begin i batch) (s.setWriter i ⟨.loop, [], batch⟩)
  | fetchOld (i : ι) (done : List ρ) (r : ρ) (todo : List ρ) (mem : Nat)
      (hw : s.writers i = ⟨.loop, done, r :: todo⟩)
      (hl : s.memtables.lookup (env.key r) = some mem) :
      Stepped env s (.fetch i) (s.setWriter i ⟨.fetched r mem, done, todo⟩)
  | fetchNew (i : ι) (done : List ρ) (r : ρ) (todo : List ρ)
      (hw : s.writers i = ⟨.loop, done, r :: todo⟩)
      (hl : s.memtables.lookup (env.key r) = none) :
      Stepped env s (.fetch i)
        ((s.alloc env (env.key r)).setWriter i ⟨.fetched r s.nextId, done, todo⟩)
  | append (i : ι) (r : ρ) (mem : Nat) (done todo : List ρ)
      (hw : s.writers i = ⟨.fetched r mem, done, todo⟩) :
      Stepped env s (.append i)
        ((s.appendWal env (env.key r) (env.entry r)).setWriter i ⟨.appended r mem, done, todo⟩)
  | insert (i : ι) (r : ρ) (mem : Nat) (done todo : List ρ)
      (hw : s.writers i = ⟨.appended r mem, done, todo⟩) :
      Stepped env s (.insert i)
        { s.setWriter i ⟨.inserted (env.key r) mem, done ++ [r], todo⟩ with
          heap := Function.update s.heap mem (env.write (s.heap mem) r)
          written := s.written ++ [r] }
  | testFull (i : ι) (key : UInt64) (mem : Nat) (done todo : List ρ)
      (hw : s.writers i = ⟨.inserted key mem, done, todo⟩) (hf : (s.heap mem).isFull = true) :
      Stepped env s (.test i) (s.setWriter i ⟨.full key mem, done, todo⟩)
  | testRoom (i : ι) (key : UInt64) (mem : Nat) (done todo : List ρ)
      (hw : s.writers i = ⟨.inserted key mem, done, todo⟩) (hf : (s.heap mem).isFull = false) :
      Stepped env s (.test i) (s.setWriter i ⟨.loop, done, todo⟩)
  | replace (i : ι) (key : UInt64) (mem : Nat) (done todo : List ρ)
      (hw : s.writers i = ⟨.full key mem, done, todo⟩) :
      Stepped env s (.replace i)
        ((s.alloc env key).setWriter i ⟨.frozen key mem, done, todo⟩)
  | enqueue (i : ι) (key : UInt64) (mem : Nat) (done todo : List ρ)
      (hw : s.writers i = ⟨.frozen key mem, done, todo⟩)
      (hq : s.queue.length < flushQueueDepth) :
      Stepped env s (.enqueue i)
        { s.setWriter i ⟨.loop, done, todo⟩ with queue := s.queue ++ [⟨mem, key⟩] }
  | dropped (i : ι) (key : UInt64) (mem : Nat) (done todo : List ρ)
      (hw : s.writers i = ⟨.frozen key mem, done, todo⟩)
      (hq : ¬ s.queue.length < flushQueueDepth) :
      Stepped env s (.enqueue i)
        { s.setWriter i ⟨.loop, done, todo⟩ with
          orphans := (⟨mem, key⟩, .logs) :: s.orphans }
  | finish (i : ι) (done : List ρ) (hw : s.writers i = ⟨.loop, done, []⟩) :
      Stepped env s (.finish i)
        { s.setWriter i ⟨.idle, [], []⟩ with acked := s.acked ++ done }
  | recv (req : FlushRequest) (queue : List FlushRequest) (hw : s.worker = none)
      (hq : s.queue = req :: queue) :
      Stepped env s .recv { s with worker := some (req, .logs), queue := queue }
  | flush (req : FlushRequest) (stage : Stage) (sig : SignalType) (stage' : Stage)
      (hw : s.worker = some (req, stage)) (hn : stage.next = some (sig, stage')) :
      Stepped env s .flush
        { s.flushSignal env req sig with
          worker := some (req, stage'), drained := (req.imm, sig) :: s.drained }
  | flushError (req : FlushRequest) (stage : Stage) (sig : SignalType) (stage' : Stage)
      (hw : s.worker = some (req, stage)) (hn : stage.next = some (sig, stage')) :
      Stepped env s .flushError
        { s with worker := none, orphans := (req, stage) :: s.orphans }
  | checkpoint (req : FlushRequest) (hw : s.worker = some (req, .checkpoint))
      (hwal : (s.wals req.partition).isSome = true) :
      Stepped env s .checkpoint
        { s.appendWal env req.partition checkpointEntry with worker := none }
  | noWal (req : FlushRequest) (hw : s.worker = some (req, .checkpoint))
      (hwal : s.wals req.partition = none) :
      Stepped env s .checkpoint { s with worker := none }
  | close (hc : s.closer = .notCalled) :
      Stepped env s .close { s with closed := true, closer := .closing }
  | listKeys (hc : s.closer = .closing) :
      Stepped env s .listKeys { s with closer := .flushing s.memtables.keys }
  | absent (key : UInt64) (keys : List UInt64) (hc : s.closer = .flushing (key :: keys))
      (hl : s.memtables.lookup key = none) :
      Stepped env s .remove { s with closer := .flushing keys }
  | letGo (key : UInt64) (keys : List UInt64) (mem : Nat)
      (hc : s.closer = .flushing (key :: keys)) (hl : s.memtables.lookup key = some mem)
      (he : (s.heap mem).isEmpty = true) :
      Stepped env s .remove
        { s with memtables := s.memtables.erase key, closer := .flushing keys }
  | remove (key : UInt64) (keys : List UInt64) (mem : Nat)
      (hc : s.closer = .flushing (key :: keys)) (hl : s.memtables.lookup key = some mem)
      (he : (s.heap mem).isEmpty = false) :
      Stepped env s .remove
        { s with memtables := s.memtables.erase key, closer := .sending mem key keys }
  | send (mem : Nat) (key : UInt64) (keys : List UInt64)
      (hc : s.closer = .sending mem key keys) (hq : s.queue.length < flushQueueDepth) :
      Stepped env s .send
        { s with queue := s.queue ++ [⟨mem, key⟩], closer := .flushing keys }
  | ret (hc : s.closer = .flushing []) : Stepped env s .ret { s with closer := .returned }

section Writers
variable (env : Env ρ) (s t : Engine ι ρ) (i : ι)

theorem stepped_begin (batch : List ρ) (h : s.begin i batch = some t) :
    Stepped env s (.begin i batch) t := by
  rw [Engine.begin] at h
  split at h
  · rename_i hpc
    split at h
    · rename_i hc
      cases h
      exact .refused i batch hpc hc
    · rename_i hc
      cases h
      exact .begin i batch hpc (by simpa using hc)
  · cases h

theorem stepped_fetch (h : s.fetch env i = some t) : Stepped env s (.fetch i) t := by
  rw [Engine.fetch] at h
  split at h
  · rename_i done r todo hw
    cases hl : s.memtables.lookup (env.key r) with
    | none =>
      simp only [Engine.getOrCreateMemtable, hl, Option.some.injEq] at h
      exact h ▸ .fetchNew i done r todo hw hl
    | some mem =>
      simp only [Engine.getOrCreateMemtable, hl, Option.some.injEq] at h
      exact h ▸ .fetchOld i done r todo mem hw hl
  · cases h

omit [DecidableEq ι] in
theorem writer_eq (pc : Pc ρ) (h : (s.writers i).pc = pc) :
    s.writers i = ⟨pc, (s.writers i).done, (s.writers i).todo⟩ := by
  rw [← h]

theorem stepped_append (h : s.append env i = some t) : Stepped env s (.append i) t := by
  rw [Engine.append] at h
  split at h
  · rename_i r mem hpc
    cases h
    exact .append i r mem _ _ (writer_eq s i _ hpc)
  · cases h

theorem stepped_insert (h : s.insert env i = some t) : Stepped env s (.insert i) t := by
  rw [Engine.insert] at h
  split at h
  · rename_i r mem done todo hw
    cases h
    exact .insert i r mem done todo hw
  · cases h

theorem stepped_test (h : s.test i = some t) : Stepped env s (.test i) t := by
  rw [Engine.test] at h
  split at h
  · rename_i key mem hpc
    cases hf : (s.heap mem).isFull with
    | true =>
      simp only [hf, if_true, Option.some.injEq] at h
      exact h ▸ .testFull i key mem _ _ (writer_eq s i _ hpc) hf
    | false =>
      simp only [hf, Bool.false_eq_true, if_false, Option.some.injEq] at h
      exact h ▸ .testRoom i key mem _ _ (writer_eq s i _ hpc) hf
  · cases h

theorem stepped_replace (h : s.replace env i = some t) : Stepped env s (.replace i) t := by
  rw [Engine.replace] at h
  split at h
  · rename_i key mem hpc
    cases h
    exact .replace i key mem _ _ (writer_eq s i _ hpc)
  · cases h

theorem stepped_enqueue (h : s.enqueue i = some t) : Stepped env s (.enqueue i) t := by
  rw [Engine.enqueue] at h
  split at h
  · rename_i key mem hpc
    split at h
    · rename_i hq
      cases h
      exact .enqueue i key mem _ _ (writer_eq s i _ hpc) hq
    · rename_i hq
      cases h
      exact .dropped i key mem _ _ (writer_eq s i _ hpc) hq
  · cases h

theorem stepped_finish (h : s.finish i = some t) : Stepped env s (.finish i) t := by
  rw [Engine.finish] at h
  split at h
  · rename_i done hw
    cases h
    exact .finish i done hw
  · cases h

end Writers

section Others
variable (env : Env ρ) (s t : Engine ι ρ)

theorem stepped_recv (h : s.recv = some t) : Stepped env s .recv t := by
  rw [Engine.recv] at h
  split at h
  · rename_i req queue hw hq
    cases h
    exact .recv req queue hw hq
  · cases h

theorem stepped_flush (h : s.flush env = some t) : Stepped env s .flush t := by
  rw [Engine.flush] at h
  split at h
  · rename_i req stage hw
    split at h
    · rename_i sig stage' hn
      cases h
      exact .flush req stage sig stage' hw hn
    · cases h
  · cases h

theorem stepped_flushError (h : s.flushError = some t) : Stepped env s .flushError t := by
  rw [Engine.flushError] at h
  split at h
  · rename_i req stage hw
    split at h
    · rename_i p hn
      cases h
      exact .flushError req stage p.1 p.2 hw hn
    · cases h
  · cases h

theorem stepped_checkpoint (h : s.checkpoint env = some t) : Stepped env s .checkpoint t := by
  rw [Engine.checkpoint] at h
  split at h
  · rename_i req hw
    split at h
    · rename_i hwal
      cases h
      exact .checkpoint req hw hwal
    · rename_i hwal
      cases h
      exact .noWal req hw (by simpa using hwal)
  · cases h

theorem stepped_close (h : s.close = some t) : Stepped env s .close t := by
  rw [Engine.close] at h
  split at h
  · rename_i hc
    cases h
    exact .close hc
  · cases h

theorem stepped_listKeys (h : s.listKeys = some t) : Stepped env s .listKeys t := by
  rw [Engine.listKeys] at h
  split at h
  · rename_i hc
    cases h
    exact .listKeys hc
  · cases h

theorem stepped_remove (h : s.remove = some t) : Stepped env s .remove t := by
  rw [Engine.remove] at h
  split at h
  · rename_i key keys hc
    split at h
    · rename_i hl
      cases h
      exact .absent key keys hc hl
    · rename_i mem hl
      cases he : (s.heap mem).isEmpty with
      | true =>
        simp only [he, if_true, Option.some.injEq] at h
        exact h ▸ .letGo key keys mem hc hl he
      | false =>
        simp only [he, Bool.false_eq_true, if_false, Option.some.injEq] at h
        exact h ▸ .remove key keys mem hc hl he
  · cases h

theorem stepped_send (h : s.send = some t) : Stepped env s .send t := by
  rw [Engine.send] at h
  split at h
  · rename_i mem key keys hc
    split at h
    · rename_i hq
      cases h
      exact .send mem key keys hc hq
    · cases h
  · cases h

theorem stepped_ret (h : s.ret = some t) : Stepped env s .ret t := by
  rw [Engine.ret] at h
  split at h
  · rename_i hc
    cases h
    exact .ret hc
  · cases h

end Others

theorem stepped_of_step (env : Env ρ) (s : Engine ι ρ) (a : Action ι ρ) (t : Engine ι ρ)
    (h : step env s a = some t) : Stepped env s a t := by
  cases a with
  | begin i batch => exact stepped_begin env s t i batch h
  | fetch i => exact stepped_fetch env s t i h
  | append i => exact stepped_append env s t i h
  | insert i => exact stepped_insert env s t i h
  | test i => exact stepped_test env s t i h
  | replace i => exact stepped_replace env s t i h
  | enqueue i => exact stepped_enqueue env s t i h
  | finish i => exact stepped_finish env s t i h
  | recv => exact stepped_recv env s t h
  | flush => exact stepped_flush env s t h
  | flushError => exact stepped_flushError env s t h
  | checkpoint => exact stepped_checkpoint env s t h
  | close => exact stepped_close env s t h
  | listKeys => exact stepped_listKeys env s t h
  | remove => exact stepped_remove env s t h
  | send => exact stepped_send env s t h
  | ret => exact stepped_ret env s t h

end InfraLens.Storage
