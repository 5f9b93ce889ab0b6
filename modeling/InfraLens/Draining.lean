import InfraLens.AccountingSteps

/-! Shutdown ends. Once no further call begins, every step of the writers, the flush worker and
`close` brings the engine nearer to rest, so every schedule of them ends, and none ends before the
calls have returned, the queue is drained and `close` is done. -/
namespace InfraLens.Storage
open Model LibRun

variable {ι ρ : Type}

def Action.goesOn : Action ι ρ → Bool
  | .begin _ _ => false
  | _ => true

/-- The steps a frozen memtable takes from the queue on: it is received, three signals are
flushed and the checkpoint is written. -/
def queuedWork : Nat := 5

/-- The steps a listed memtable takes: it is removed, sent and flushed. -/
def listedWork : Nat := 2 + queuedWork

/-- A bound on the steps a record leads to: six of the writer, a flush of the memtable it may
freeze, and the listing of two memtables that may be made for it. -/
def recordWork : Nat := 6 + queuedWork + 2 * listedWork

/-- The steps left of a writer's current record, and the return of its call. -/
def Pc.work : Pc ρ → Nat
  | .idle => 0
  | .loop => 1
  | .frozen _ _ => 1 + (1 + queuedWork)
  | .full _ _ => 1 + (2 + queuedWork + listedWork)
  | .inserted _ _ => 1 + (3 + queuedWork + listedWork)
  | .appended _ _ => 1 + (4 + queuedWork + listedWork)
  | .fetched _ _ => 1 + (5 + queuedWork + listedWork)

def Writer.work (w : Writer ρ) : Nat := w.pc.work + recordWork * w.todo.length

def Stage.work : Stage → Nat
  | .logs => 4
  | .metrics => 3
  | .spans => 2
  | .checkpoint => 1

/-- What `close` has still to do with the map as it is. -/
def Closer.work (active : Nat) : Closer → Nat
  | .notCalled => 3 + listedWork * active
  | .closing => 2 + listedWork * active
  | .flushing keys => 1 + listedWork * keys.length
  | .sending _ _ keys => 1 + listedWork * keys.length + (1 + queuedWork)
  | .returned => 0

def Engine.work [Fintype ι] (s : Engine ι ρ) : Nat :=
  ∑ i, (s.writers i).work + queuedWork * s.queue.length +
    (s.worker.elim 0 fun w => w.2.work) + s.closer.work s.memtables.keys.length

/-- All calls have returned, nothing waits for its flush and `close` is done. -/
structure Engine.AtRest (s : Engine ι ρ) : Prop where
  writers : ∀ i, (s.writers i).pc = .idle
  queue : s.queue = []
  worker : s.worker = none
  closer : s.closer = .returned

section Steps
variable [Fintype ι] (env : Env ρ) (s t : Engine ι ρ)

theorem stage_work_next (stage : Stage) (sig : SignalType) (stage' : Stage)
    (h : stage.next = some (sig, stage')) : stage'.work < stage.work := by
  cases stage <;> cases h <;> decide

theorem stage_work_pos (stage : Stage) : 0 < stage.work := by
  cases stage <;> decide

theorem closer_work_insert (c : Closer) (key : UInt64) (mem : Nat)
    (m : AList fun _ : UInt64 => Nat) :
    c.work (m.insert key mem).keys.length ≤ c.work m.keys.length + listedWork := by
  have hkeys : (m.insert key mem).keys.length ≤ m.keys.length + 1 := by
    rw [AList.keys_insert, List.length_cons]
    exact Nat.succ_le_succ (List.length_erase_le)
  have hmul := Nat.mul_le_mul_left listedWork hkeys
  rw [Nat.mul_succ] at hmul
  cases c <;> simp only [Closer.work] <;> omega

variable [DecidableEq ι]

theorem writers_work_update (i : ι) (w : Writer ρ) :
    (∑ j, (Function.update s.writers i w j).work) + (s.writers i).work =
      (∑ j, (s.writers j).work) + w.work :=
  sum_update s.writers i w Writer.work

/-- A step of a writer: it lowers the writer's work by more than it adds elsewhere. -/
theorem work_writer (i : ι) (w : Writer ρ) (hw : t.writers = Function.update s.writers i w)
    (hworker : t.worker = s.worker)
    (hless : w.work + queuedWork * t.queue.length + t.closer.work t.memtables.keys.length <
      (s.writers i).work + queuedWork * s.queue.length +
        s.closer.work s.memtables.keys.length) : t.work < s.work := by
  have hsum := writers_work_update s i w
  simp only [Engine.work, hw, hworker]
  omega

theorem work_decreases (a : Action ι ρ) (ha : a.goesOn = true) (h : step env s a = some t) :
    t.work < s.work := by
  -- a writer that puts a fresh memtable into the map
  have halloc (i : ι) (w : Writer ρ) (key : UInt64)
      (hless : w.work + listedWork < (s.writers i).work) :
      ((s.alloc env key).setWriter i w).work < s.work := by
    have hkeys := closer_work_insert s.closer key s.nextId s.memtables
    refine work_writer s _ i w rfl rfl ?_
    simp only [Engine.setWriter, Engine.alloc]
    omega
  cases stepped_of_step env s a t h with
  | refused i batch hpc hc => cases ha
  | begin i batch hpc hc => cases ha
  | fetchOld i done r todo mem hw hl =>
    refine work_writer s _ i _ rfl rfl ?_
    simp only [hw, Writer.work, Pc.work, Engine.setWriter, recordWork, listedWork, queuedWork,
      List.length_cons]
    omega
  | fetchNew i done r todo hw hl =>
    apply halloc
    simp only [hw, Writer.work, Pc.work, recordWork, listedWork, queuedWork, List.length_cons]
    omega
  | append i r mem done todo hw =>
    refine work_writer s _ i _ rfl rfl ?_
    simp only [hw, Writer.work, Pc.work, Engine.setWriter, Engine.appendWal]
    omega
  | insert i r mem done todo hw =>
    refine work_writer s _ i ⟨.inserted (env.key r) mem, done ++ [r], todo⟩ rfl rfl ?_
    simp only [hw, Writer.work, Pc.work, Engine.setWriter]
    omega
  | testFull i key mem done todo hw hf =>
    refine work_writer s _ i _ rfl rfl ?_
    simp only [hw, Writer.work, Pc.work, Engine.setWriter]
    omega
  | testRoom i key mem done todo hw hf =>
    refine work_writer s _ i _ rfl rfl ?_
    simp only [hw, Writer.work, Pc.work, Engine.setWriter]
    omega
  | replace i key mem done todo hw =>
    apply halloc
    simp only [hw, Writer.work, Pc.work]
    omega
  | enqueue i key mem done todo hw hq =>
    refine work_writer s _ i ⟨.loop, done, todo⟩ rfl rfl ?_
    simp only [hw, Writer.work, Pc.work, Engine.setWriter, queuedWork, List.length_append,
      List.length_singleton]
    omega
  | dropped i key mem done todo hw hq =>
    refine work_writer s _ i ⟨.loop, done, todo⟩ rfl rfl ?_
    simp only [hw, Writer.work, Pc.work, Engine.setWriter]
    omega
  | finish i done hw =>
    refine work_writer s _ i ⟨.idle, [], []⟩ rfl rfl ?_
    simp only [hw, Writer.work, Pc.work, Engine.setWriter]
    omega
  | recv req queue hw hq =>
    simp only [Engine.work, hw, hq, List.length_cons, Option.elim_none, Option.elim_some,
      Stage.work, queuedWork]
    omega
  | flush req stage sig stage' hw hn =>
    obtain ⟨tables, seqs, he⟩ := flushSignal_eq env s req sig
    have hstage := stage_work_next stage sig stage' hn
    rw [he]
    simp only [Engine.work, hw, Option.elim_some]
    omega
  | flushError req stage sig stage' hw hn =>
    have hstage := stage_work_pos stage
    simp only [Engine.work, hw, Option.elim_some, Option.elim_none]
    omega
  | checkpoint req hw hwal =>
    simp only [Engine.work, Engine.appendWal, hw, Option.elim_some, Option.elim_none, Stage.work]
    omega
  | noWal req hw hwal =>
    simp only [Engine.work, hw, Option.elim_some, Option.elim_none, Stage.work]
    omega
  | close hc =>
    simp only [Engine.work, hc, Closer.work]
    omega
  | listKeys hc =>
    simp only [Engine.work, hc, Closer.work]
    omega
  | absent key keys hc hl =>
    simp only [Engine.work, hc, Closer.work, List.length_cons, listedWork, queuedWork]
    omega
  | letGo key keys mem hc hl he =>
    simp only [Engine.work, hc, Closer.work, List.length_cons, listedWork, queuedWork]
    omega
  | remove key keys mem hc hl he =>
    simp only [Engine.work, hc, Closer.work, List.length_cons, listedWork, queuedWork]
    omega
  | send mem key keys hc hq =>
    simp only [Engine.work, hc, Closer.work, queuedWork, List.length_append,
      List.length_singleton]
    omega
  | ret hc =>
    simp only [Engine.work, hc, Closer.work]
    omega

end Steps

section Rest
variable [DecidableEq ι] (env : Env ρ) (s : Engine ι ρ)

theorem idle_of_stuck (h : ∀ a : Action ι ρ, a.goesOn = true → step env s a = none) (i : ι) :
    (s.writers i).pc = .idle := by
  rcases hw : s.writers i with ⟨pc, done, todo⟩
  cases pc with
  | idle => rfl
  | loop =>
    cases todo with
    | nil => simpa [step, Engine.finish, hw] using h (.finish i) rfl
    | cons r todo => simpa [step, Engine.fetch, hw] using h (.fetch i) rfl
  | fetched r mem => simpa [step, Engine.append, hw] using h (.append i) rfl
  | appended r mem => simpa [step, Engine.insert, hw] using h (.insert i) rfl
  | inserted key mem => simpa [step, Engine.test, hw] using h (.test i) rfl
  | full key mem => simpa [step, Engine.replace, hw] using h (.replace i) rfl
  | frozen key mem =>
    have hstuck := h (.enqueue i) rfl
    simp only [step, Engine.enqueue, hw] at hstuck
    split at hstuck <;> cases hstuck

theorem worker_of_stuck (h : ∀ a : Action ι ρ, a.goesOn = true → step env s a = none) :
    s.worker = none := by
  rcases hw : s.worker with _ | ⟨req, stage⟩
  · rfl
  · cases hn : stage.next with
    | some next => simpa [step, Engine.flush, hw, hn] using h .flush rfl
    | none =>
      have hstage : stage = .checkpoint := by
        cases stage <;> first | rfl | cases hn
      have hstuck := h .checkpoint rfl
      simp only [step, Engine.checkpoint, hw, hstage] at hstuck
      split at hstuck <;> cases hstuck

theorem queue_of_stuck (h : ∀ a : Action ι ρ, a.goesOn = true → step env s a = none) :
    s.queue = [] := by
  rcases hq : s.queue with _ | ⟨req, queue⟩
  · rfl
  · simpa [step, Engine.recv, worker_of_stuck env s h, hq] using h .recv rfl

theorem closer_of_stuck (h : ∀ a : Action ι ρ, a.goesOn = true → step env s a = none) :
    s.closer = .returned := by
  cases hc : s.closer with
  | notCalled => simpa [step, Engine.close, hc] using h .close rfl
  | closing => simpa [step, Engine.listKeys, hc] using h .listKeys rfl
  | flushing keys =>
    cases keys with
    | nil => simpa [step, Engine.ret, hc] using h .ret rfl
    | cons key keys =>
      have hstuck := h .remove rfl
      simp only [step, Engine.remove, hc] at hstuck
      split at hstuck <;> cases hstuck
  | sending mem key keys =>
    -- the send waits for a slot only while the queue is full, and the queue is empty
    have hstuck := h .send rfl
    simp [step, Engine.send, hc, queue_of_stuck env s h, flushQueueDepth] at hstuck
  | returned => rfl

theorem atRest_of_stuck (h : ∀ a : Action ι ρ, a.goesOn = true → step env s a = none) :
    s.AtRest :=
  ⟨idle_of_stuck env s h, queue_of_stuck env s h, worker_of_stuck env s h,
    closer_of_stuck env s h⟩

end Rest

/-- From any state, with any number of calls being served and however full the queue is: as long
as no call begins, no schedule takes more than `work` steps, a schedule that can take no further
step has brought the engine to rest, and there is one that does. -/
theorem shutdown_ends [Fintype ι] [DecidableEq ι] (env : Env ρ) (s : Engine ι ρ) :
    (∀ acts t, (∀ a ∈ acts, Action.goesOn a = true) → run (step env) s acts = some t →
      acts.length ≤ s.work ∧
        ((∀ a : Action ι ρ, a.goesOn = true → step env t a = none) → t.AtRest)) ∧
    ∃ acts t, (∀ a ∈ acts, Action.goesOn a = true) ∧ run (step env) s acts = some t ∧
      t.AtRest := by
  have hdec := fun (u : Engine ι ρ) a v => work_decreases env u v a
  constructor
  · intro acts t hacts hrun
    have hlen := run_measure (step env) (fun a => a.goesOn = true) Engine.work hdec acts s t
      hacts hrun
    exact ⟨by omega, atRest_of_stuck env t⟩
  · obtain ⟨acts, t, hacts, hrun, hstuck⟩ :=
      exists_run_stuck (step env) (fun a => a.goesOn = true) Engine.work hdec s
    exact ⟨acts, t, hacts, hrun, atRest_of_stuck env t hstuck⟩

end InfraLens.Storage
