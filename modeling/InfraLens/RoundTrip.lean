import InfraLens.Rows
import InfraLens.Shutdown
import InfraLens.Concurrent

/-! From `write_batch` to the rows of the SSTables: which written records come out. -/
namespace InfraLens.Storage
open Model LibRun Rows

theorem reread_all (cfg : Config) (rs : List Record) :
    (rs.filterMap fun r => (cfg.env.reread r).map (Prod.mk (cfg.env.key r))) =
      (rs.filter fun r => r.NoAnyValue).map fun r => (cfg.env.key r, r) := by
  induction rs with
  | nil => rfl
  | cons r rs ih =>
    by_cases h : r.NoAnyValue
    · simp [h, reread_of_noAnyValue cfg r h, ih]
    · simp [h, reread_of_anyValue cfg r h, ih]

theorem survivors_env (cfg : Config) (rs : List Record) (sig : SignalType) :
    cfg.env.survivors rs sig =
      (((rs.filter fun r => r.signalType = sig).filter fun r => r.NoAnyValue).map fun r =>
        (cfg.env.key r, r) : List (UInt64 × Record)) := by
  rw [Env.survivors, reread_all]
  rfl

def Engine.rows {ι : Type} (json : Json) (s : Engine ι Record) (sig : SignalType) :
    Multiset Row := (s.registered sig).map fun p => row json p.2

def rowsOf (json : Json) (rs : List Record) (sig : SignalType) : Multiset Row :=
  ((rs.filter fun r => r.signalType = sig).map (row json) : List Row)

/-- When `close` has returned and the worker has emptied its queue, the rows registered
are those of the written records that carry no attribute value. -/
theorem rows_of_closed (cfg : Config) (json : Json) (s : Engine Unit Record)
    (hs : Served cfg.env s) (hr : s.closer = .returned) (hq : s.queue = [])
    (hw : s.worker = none) (sig : SignalType) :
    s.rows json sig = rowsOf json (s.acked.filter fun r => r.NoAnyValue) sig := by
  obtain ⟨hreg, hacked⟩ := served_returned cfg.env s hs hr sig
  have hempty : s.contents cfg.env sig (s.queue + s.underFlush sig) = 0 := by
    simp [Engine.underFlush, hq, hw, Engine.contents]
  rw [hempty, zero_add, survivors_env] at hreg
  have hperm : s.acked.Perm s.written := Multiset.coe_eq_coe.mp hacked
  rw [Engine.rows, hreg, rowsOf, List.filter_comm, Multiset.map_coe, List.map_map]
  exact Multiset.coe_eq_coe.mpr ((((hperm.symm.filter _).filter _).map _))

theorem rowsOf_filter_iff (json : Json) (rs : List Record) :
    (∀ sig, rowsOf json (rs.filter fun r => r.NoAnyValue) sig = rowsOf json rs sig) ↔
      ∀ r ∈ rs, r.NoAnyValue := by
  constructor
  · intro h r hr
    by_contra hno
    have hcard := congrArg Multiset.card (h r.signalType)
    simp only [rowsOf, Multiset.coe_card, List.length_map] at hcard
    rw [List.filter_comm] at hcard
    have hlt : ((rs.filter fun r' => r'.signalType = r.signalType).filter fun r' =>
        r'.NoAnyValue).length < (rs.filter fun r' => r'.signalType = r.signalType).length :=
      List.length_filter_lt_length_iff_exists.mpr ⟨r, by simp [hr], by simpa using hno⟩
    omega
  · intro h sig
    rw [List.filter_eq_self.mpr (fun r hr => by simpa using h r hr)]

/-- The rows registered for each signal are, as a multiset, the rows of the written
records exactly when no written record carries an attribute value. -/
theorem registered_rows_iff (cfg : Config) (json : Json) (acts : List (Action Unit Record))
    (t : Engine Unit Record) (hok : Along (step cfg.env) Orderly (Engine.open cfg.env) acts)
    (hrun : run (step cfg.env) (Engine.open cfg.env) acts = some t)
    (hr : t.closer = .returned) (hq : t.queue = []) (hw : t.worker = none) :
    (∀ sig, t.rows json sig = rowsOf json t.acked sig) ↔ ∀ r ∈ t.acked, r.NoAnyValue := by
  have hs : Served cfg.env t := run_invariant (step cfg.env) Orderly (Served cfg.env)
    (fun s a u hs hok h => served_step cfg.env s u a hs hok h) acts _ t
    (served_open cfg.env) hok hrun
  rw [← rowsOf_filter_iff json t.acked]
  simp only [rows_of_closed cfg json t hs hr hq hw]

/-- The default configuration: one-hour partitions, 64 MiB memtables. -/
def defaultConfig : Config := ⟨3600000000000, 64 * 1024 * 1024, Crc32.crc32, hour_ne_zero⟩

/-- One record written, then `close`, then the flush of its memtable. -/
def writeAndClose (r : Record) : List (Action Unit Record) :=
  [.begin () [r], .fetch (), .append (), .insert (), .test (), .finish (), .close, .listKeys,
    .remove, .send, .ret, .recv, .flush, .flush, .flush, .checkpoint]

theorem registered_rows_iff_bare :
    ∃ t, run (step defaultConfig.env) (Engine.open defaultConfig.env)
        (writeAndClose (log 5)) = some t ∧
      ((∀ sig, t.rows noJson sig = rowsOf noJson [log 5] sig) ↔
        ∀ r ∈ [log 5], r.NoAnyValue) :=
  ⟨_, rfl, registered_rows_iff defaultConfig noJson (writeAndClose (log 5)) _ (by decide) rfl rfl
    rfl rfl⟩

def helloLog : Record := .log (LogRecord.bare 5 (some (.string ⟨"hello", by decide⟩)))

/-- A log record with a body is written, acknowledged and flushed, and its SSTable has
no row. -/
theorem body_drops_row :
    ∃ t, run (step defaultConfig.env) (Engine.open defaultConfig.env)
        (writeAndClose helloLog) = some t ∧
      t.closer = .returned ∧ t.queue = [] ∧ t.worker = none ∧ t.acked = [helloLog] ∧
      t.rows noJson .log = 0 ∧ Multiset.card (rowsOf noJson t.acked .log) = 1 :=
  ⟨_, rfl, rfl, rfl, rfl, rfl, rfl, rfl⟩

end InfraLens.Storage
