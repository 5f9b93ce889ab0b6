import InfraLens.Calls
import InfraLens.Encodings
import InfraLens.NoLoss

/-! Several tasks calling `write_batch` at once: what a freeze and a drain need of the
other writers for no record to be lost or doubled, and a run where they do not have it. -/
namespace InfraLens.Storage
open Model LibRun LibLedger

variable {ι : Type}

theorem reread_of_noAnyValue (cfg : Config) (r : Record) (h : r.NoAnyValue) :
    cfg.env.reread r = some r := RecordCodec.deserialize_serialize r h

theorem reread_of_anyValue (cfg : Config) (r : Record) (h : ¬ r.NoAnyValue) :
    cfg.env.reread r = none := RecordCodec.deserialize_serialize_none r h

theorem faithful_env (cfg : Config) : Faithful cfg.env := by
  intro r r' h
  by_cases hplain : r.NoAnyValue
  · rw [reread_of_noAnyValue cfg r hplain] at h
    exact (Option.some.inj h).symm
  · rw [reread_of_anyValue cfg r hplain] at h
    cases h

/-- What the flush worker and the queue do as long as no I/O fails and the queue never
fills, what a freeze and a drain take for granted, and drained rows that decode. -/
def Guarded [Fintype ι] (cfg : Config) (s : Engine ι Record) (a : Action ι Record) : Prop :=
  (a.routine = true ∧ HasRoom s a) ∧ Safe cfg.env s a ∧ Decodes cfg.env s a

instance [Fintype ι] (cfg : Config) (s : Engine ι Record) (a : Action ι Record) :
    Decidable (Guarded cfg s a) :=
  inferInstanceAs (Decidable
    ((a.routine = true ∧ HasRoom s a) ∧ Safe cfg.env s a ∧ Decodes cfg.env s a))

/-- With any number of concurrent calls every written record is in one place, as a row of a
registered SSTable or as its encoding in a memtable; no writer has a record to insert into a
memtable already drained of its signal, no memtable is drained of a signal twice, and none that
holds rows is let go undrained. -/
theorem freeze_keeps_records [Fintype ι] [DecidableEq ι] (cfg : Config)
    (acts : List (Action ι Record)) (t : Engine ι Record)
    (hok : Along (step cfg.env) (Guarded cfg) (Engine.open cfg.env) acts)
    (hrun : run (step cfg.env) (Engine.open cfg.env) acts = some t) :
    (∀ sig, ∃ held, held + t.registered sig = cfg.env.located t.written sig ∧
        t.storedRows sig t.active + t.storedRows sig (t.frozen sig) = held.map cfg.env.stored) ∧
      (t.acked : Multiset Record) ≤ t.written ∧
      (∀ i r mem, (t.writers i).pc.target = some (r, mem) → mem ∉ t.drainedOf r.signalType) ∧
      (∀ sig, (t.drainedOf sig).Nodup) ∧
      ∀ sig mem, mem < t.nextId → (t.heap mem).rows sig.toU8 ≠ 0 →
        mem ∈ (t.active + t.frozen sig).map FlushRequest.imm ∨ mem ∈ t.drainedOf sig := by
  obtain ⟨hintact, horphans, htally⟩ := run_invariant (step cfg.env) (Guarded cfg)
    (fun s => Intact cfg.env s ∧ s.orphans = [] ∧ Tallied s)
    (fun s a u hs hok h => by
      have hst := stepped_of_step cfg.env s a u h
      exact ⟨intact_step cfg.env s a u hs.1 hok.2.1 hok.2.2 h,
        orphans_step cfg.env s a u hs.2.1 (succeeds_of_routine a hok.1.1) hok.1.2 hst,
        tallied_step cfg.env s u a hs.2.2 hst⟩)
    acts _ t ⟨intact_open _, rfl, tallied_open _⟩ hok hrun
  have hinv := hintact.inv
  have hheld : ∀ sig, t.holders sig = t.active + t.frozen sig := by
    intro sig
    simp only [Engine.holders, Engine.frozen, orphaned_of_nil t horphans, add_zero, add_assoc]
  refine ⟨?_, acked_le_written t htally, ?_, ?_, ?_⟩
  · intro sig
    rw [← storedRows_add, ← hheld]
    exact rows_of_intact cfg.env t (faithful_env cfg) hintact sig
  · intro i r mem ht
    exact not_spent_of_held _ _ _ (hinv.balanced r.signalType) _ (hinv.target i r mem ht)
  · intro sig
    exact (Multiset.nodup_add.mp (hinv.balanced sig).nodup).2.1
  · intro sig mem hlt hne
    rw [← map_serialize_decoded cfg.env (faithful_env cfg) t hintact.encoded] at hne
    have hmem := (hintact.reader.balanced sig).tracked mem hlt
      fun hzero => hne (Multiset.map_eq_zero.mpr hzero)
    rw [Ledger.ids, Multiset.mem_add, Engine.view, hheld] at hmem
    exact hmem

def log (timestampNs : UInt64) : Record := .log (LogRecord.bare timestampNs none)

def smallConfig : Config := ⟨3600000000000, 150, Crc32.crc32, hour_ne_zero⟩

/-- A log with a body, which no flush can read back. -/
def bodied : LogRecord := LogRecord.bare 5 (some (.string ⟨"lost", by decide⟩))

def bodyLog : Record := .log bodied

/-- Two calls inserting in turn; the second freezes their memtable, the worker drains it, and a
record that would not decode goes to the fresh one. -/
def inTurn : List (Action Bool Record) :=
  [.begin false [log 1], .begin true [log 2], .fetch false, .fetch true, .append false,
    .append true, .insert false, .test false, .insert true, .test true, .finish false,
    .replace true, .enqueue true, .recv, .flush, .finish true, .begin false [bodyLog],
    .fetch false, .append false, .insert false]

theorem freeze_keeps_records_inTurn :
    ∃ t, run (step smallConfig.env) (Engine.open smallConfig.env) inTurn = some t ∧
      ∃ held, held + t.registered .log = smallConfig.env.located [log 1, log 2, bodyLog] .log ∧
        t.storedRows .log t.active + t.storedRows .log (t.frozen .log) =
          held.map smallConfig.env.stored :=
  ⟨_, rfl, (freeze_keeps_records smallConfig inTurn _ (by decide +kernel) rfl).1 .log⟩

/-- The first call fetches the memtable that the second fills, freezes and sees flushed;
then the first call inserts into it, freezes it again over the fresh one, and it is
flushed again. -/
def staleFetch : List (Action Bool Record) :=
  [.begin false [log 1], .fetch false, .append false, .begin true [log 2, log 3, log 4],
    .fetch true, .append true, .insert true, .test true, .fetch true, .append true,
    .insert true, .test true, .replace true, .enqueue true, .recv, .flush, .flush, .flush,
    .checkpoint, .fetch true, .append true, .insert true, .test true, .finish true,
    .insert false, .test false, .replace false, .enqueue false, .finish false, .recv, .flush,
    .flush, .flush, .checkpoint]

/-- When both calls have returned, record 4 is nowhere and records 2 and 3 are in two
SSTables; no queue was full and no I/O failed. -/
theorem stale_fetch_breaks :
    Along (step smallConfig.env) (fun s a => a.routine = true ∧ HasRoom s a)
        (Engine.open smallConfig.env) staleFetch ∧
      (∀ a ∈ staleFetch, Batches Record.NoAnyValue a) ∧
      ∃ t, run (step smallConfig.env) (Engine.open smallConfig.env) staleFetch = some t ∧
        (t.registered .log).map (fun p => p.2.timestampNs) = {2, 3, 1, 2, 3} ∧
        t.contents smallConfig.env .log t.active = 0 ∧
        t.contents smallConfig.env .log (t.frozen .log) = 0 ∧
        (smallConfig.env.located t.written .log).map (fun p => p.2.timestampNs) =
          {2, 3, 4, 1} := by
  have hfacts : ((run (step smallConfig.env) (Engine.open smallConfig.env) staleFetch).map
      fun t => ((t.registered .log).map (fun p => p.2.timestampNs),
        Multiset.card (t.contents smallConfig.env .log t.active),
        Multiset.card (t.contents smallConfig.env .log (t.frozen .log)),
        (smallConfig.env.located t.written .log).map (fun p => p.2.timestampNs))) =
      some ({2, 3, 1, 2, 3}, 0, 0, {2, 3, 4, 1}) := by
    decide +kernel
  obtain ⟨t, hrun, ht⟩ := Option.map_eq_some_iff.mp hfacts
  simp only [Prod.mk.injEq, Multiset.card_eq_zero] at ht
  obtain ⟨hreg, hactive, hfrozen, hwritten⟩ := ht
  exact ⟨by decide +kernel, by decide, t, hrun, hreg, hactive, hfrozen, hwritten⟩

end InfraLens.Storage
