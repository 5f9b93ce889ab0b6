import InfraLens.SingleWriter
import InfraLens.Crc32

/-! One writer and the flush worker, all file I/O succeeding: no record is lost or
doubled as long as every freeze finds a free slot in the flush queue. -/
namespace InfraLens.Storage
open Model LibRun LibLedger

variable {ι ρ : Type}

/-- Every step but a failed flush. -/
def Action.succeeds : Action ι ρ → Bool
  | .flushError => false
  | _ => true

def Action.ofClose : Action ι ρ → Bool
  | .close => true
  | .listKeys => true
  | .remove => true
  | .send => true
  | .ret => true
  | _ => false

/-- The steps of `write_batch` calls and of a flush worker whose I/O succeeds. -/
def Action.routine (a : Action ι ρ) : Bool := a.succeeds && !a.ofClose

/-- A freeze finds a free slot in the flush queue. -/
def HasRoom (s : Engine ι ρ) : Action ι ρ → Prop
  | .enqueue _ => s.queue.length < flushQueueDepth
  | _ => True

instance (s : Engine ι ρ) : (a : Action ι ρ) → Decidable (HasRoom s a)
  | .enqueue _ => inferInstanceAs (Decidable (s.queue.length < flushQueueDepth))
  | .begin _ _ | .fetch _ | .append _ | .insert _ | .test _ | .replace _ | .finish _
  | .recv | .flush | .flushError | .checkpoint | .close | .listKeys | .remove | .send
  | .ret => .isTrue trivial

section Steps
variable [DecidableEq ι] (env : Env ρ) (s : Engine ι ρ) (a : Action ι ρ) (t : Engine ι ρ)

theorem orphans_step (hs : s.orphans = []) (hio : a.succeeds = true) (hroom : HasRoom s a)
    (h : Stepped env s a t) : t.orphans = [] := by
  cases h with
  | dropped i key mem done todo hw hq => exact absurd hroom hq
  | flush req stage sig stage' hw hn =>
    obtain ⟨tables, seqs, he⟩ := flushSignal_eq env s req sig
    rw [he]
    exact hs
  | flushError req stage sig stage' hw hn => cases hio
  | _ => exact hs

omit [DecidableEq ι] in
theorem orphaned_of_nil (hs : s.orphans = []) (sig : SignalType) : s.orphaned sig = 0 := by
  rw [Engine.orphaned, hs]
  rfl

omit [DecidableEq ι] in
theorem succeeds_of_routine (h : a.routine = true) : a.succeeds = true :=
  (Bool.and_eq_true_iff.mp h).1

end Steps

theorem calm_of_ofClose (s : Engine Unit ρ) (a : Action Unit ρ) (h : a.ofClose = false) :
    Calm s a := by
  cases a with
  | listKeys => cases h
  | _ => trivial

theorem calm_of_routine (s : Engine Unit ρ) (a : Action Unit ρ) (h : a.routine = true) :
    Calm s a := by
  apply calm_of_ofClose
  simpa using (Bool.and_eq_true_iff.mp h).2

/-- All of the memtable under flush, whatever the stage it is in. -/
def Engine.flushing (s : Engine ι ρ) : Multiset FlushRequest :=
  (s.worker.toList.map Prod.fst : List FlushRequest)

theorem underFlush_eq_flushing (s : Engine ι ρ) (sig : SignalType)
    (h : ∀ req stage, s.worker = some (req, stage) → stage = .logs) :
    s.underFlush sig = s.flushing := by
  cases hw : s.worker with
  | none => simp [Engine.underFlush, Engine.flushing, hw, undrained]
  | some f =>
    obtain ⟨req, stage⟩ := f
    rw [h req stage hw] at hw
    simp [Engine.underFlush, Engine.flushing, hw, undrained, Stage.pending]

/-- The written records of a signal are, as a multiset and each in its partition, those
of the active memtables, of the frozen ones not yet drained of the signal, and of the
registered SSTables. Before the first drain of a flush the frozen ones are all that are
being queued, queued or under flush. -/
theorem written_in_one_place (env : Env ρ) (hlossless : ∀ r, env.reread r = some r)
    (acts : List (Action Unit ρ)) (t : Engine Unit ρ)
    (hok : Along (step env) (fun s a => a.routine = true ∧ HasRoom s a) (Engine.open env) acts)
    (hrun : run (step env) (Engine.open env) acts = some t) (sig : SignalType) :
    t.contents env sig t.active + t.contents env sig (t.frozen sig) + t.registered sig =
        env.located t.written sig ∧
      ((∀ req stage, t.worker = some (req, stage) → stage = .logs) →
        t.frozen sig = t.inHand + t.queue + t.flushing) := by
  obtain ⟨⟨hinv, -⟩, horphans⟩ := run_invariant (step env)
    (fun s a => a.routine = true ∧ HasRoom s a)
    (fun s => (Inv env s ∧ Solo env s) ∧ s.orphans = [])
    (fun s a u hs hok h => ⟨inv_solo_step env s u a hs.1 (calm_of_routine s a hok.1) h,
      orphans_step env s a u hs.2 (succeeds_of_routine a hok.1) hok.2
        (stepped_of_step env s a u h)⟩)
    acts _ t ⟨⟨inv_open env, solo_open env⟩, rfl⟩ hok hrun
  refine ⟨?_, ?_⟩
  · have heq := written_eq env t hinv sig
    rw [orphaned_of_nil t horphans, survivors_of_reread env _ sig (fun r _ => hlossless r)] at heq
    simpa [Engine.contents] using heq
  · intro hlogs
    rw [Engine.frozen, underFlush_eq_flushing t sig hlogs]

theorem plain_lossless (cfg : Config) (r : { r : Record // r.NoAnyValue }) :
    cfg.plainEnv.reread r = some r := by
  obtain ⟨r, h⟩ := r
  have hd := RecordCodec.deserialize_serialize r h
  simp [Env.reread, Config.plainEnv, hd, h]

def tinyConfig : Config := ⟨3600000000000, 1, Crc32.crc32, hour_ne_zero⟩

def plainLog (timestampNs : UInt64) : { r : Record // r.NoAnyValue } :=
  ⟨.log (LogRecord.bare timestampNs none), LogRecord.bare_noAnyValue timestampNs⟩

def writeOne (r : ρ) : List (Action Unit ρ) :=
  [.begin () [r], .fetch (), .append (), .insert (), .test (), .replace (), .enqueue (),
    .finish ()]

/-- One record in an SSTable, its memtable still under flush, and one just inserted. -/
def midFlush : List (Action Unit { r : Record // r.NoAnyValue }) :=
  writeOne (plainLog 5) ++ [.recv, .flush] ++
    [.begin () [plainLog 6], .fetch (), .append (), .insert ()]

theorem written_in_one_place_midFlush :
    ∃ t, run (step tinyConfig.plainEnv) (Engine.open tinyConfig.plainEnv) midFlush = some t ∧
      t.contents tinyConfig.plainEnv .log t.active +
          t.contents tinyConfig.plainEnv .log (t.frozen .log) + t.registered .log =
        tinyConfig.plainEnv.located [plainLog 5, plainLog 6] .log :=
  ⟨_, rfl, (written_in_one_place tinyConfig.plainEnv (plain_lossless tinyConfig) midFlush _
    (by decide) rfl .log).1⟩

/-- 65 freezes before the worker takes a request. -/
def fillQueue : List (Action Unit { r : Record // r.NoAnyValue }) :=
  (List.replicate (flushQueueDepth + 1) (writeOne (plainLog 5))).flatten

/-- The 65th frozen memtable finds the queue full and is dropped, and its record with it,
though every call returned `Ok`. -/
theorem full_queue_drops :
    (∀ a ∈ fillQueue, a.routine = true) ∧
      ∃ t, run (step tinyConfig.plainEnv) (Engine.open tinyConfig.plainEnv) fillQueue = some t ∧
        t.acked.length = 65 ∧
        t.contents tinyConfig.plainEnv .log t.active +
            t.contents tinyConfig.plainEnv .log (t.frozen .log) + t.registered .log ≠
          tinyConfig.plainEnv.located t.written .log := by
  have hcount : ((run (step tinyConfig.plainEnv) (Engine.open tinyConfig.plainEnv)
      fillQueue).map fun t => (t.acked.length,
        Multiset.card (t.contents tinyConfig.plainEnv .log t.active +
          t.contents tinyConfig.plainEnv .log (t.frozen .log) + t.registered .log),
        Multiset.card (tinyConfig.plainEnv.located t.written .log))) = some (65, 64, 65) := by
    decide +kernel
  obtain ⟨t, hrun, ht⟩ := Option.map_eq_some_iff.mp hcount
  simp only [Prod.mk.injEq] at ht
  obtain ⟨hacked, hkept, hwritten⟩ := ht
  refine ⟨by decide +kernel, t, hrun, hacked, ?_⟩
  intro heq
  rw [heq, hwritten] at hkept
  cases hkept

end InfraLens.Storage
