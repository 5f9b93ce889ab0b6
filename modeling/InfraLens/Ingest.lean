import InfraLens.RoundTrip

/-! The ingest pipeline (processor.rs) in front of the engine: `submit`, the one writer
task, and `close` running beside them. -/
namespace InfraLens.Ingest
open Model LibRun Storage

/-- The channel, the batch the writer task has taken from it, and the engine. The last
field records the batches `submit` accepted before `close` was called. -/
structure Pipeline where
  channel : List IngestBatch
  hand : Option IngestBatch
  engine : Engine Unit Record
  accepted : List IngestBatch

def Pipeline.new (cfg : Config) : Pipeline where
  channel := []
  hand := none
  engine := Engine.open cfg.env
  accepted := []

inductive Move where
  | submit (batch : IngestBatch)
  | receive
  | call
  | engine (a : Action Unit Record)

section Steps
variable (cfg : Config) (bufferDepth : Nat) (s : Pipeline)

/-- `submit`: a full channel refuses the batch. -/
def Pipeline.submit (batch : IngestBatch) : Pipeline :=
  if s.channel.length < bufferDepth then
    { s with
      channel := s.channel ++ [batch]
      accepted := if s.engine.closed then s.accepted else s.accepted ++ [batch] }
  else s

/-- The writer task takes the next batch when its last `write_batch` has returned. -/
def Pipeline.receive : Option Pipeline :=
  match s.hand, (s.engine.writers ()).pc, s.channel with
  | none, .idle, batch :: channel => some { s with channel := channel, hand := some batch }
  | _, _, _ => none

/-- The writer task passes its batch to `write_batch`; a refusal is only logged. -/
def Pipeline.call : Option Pipeline :=
  match s.hand with
  | some batch =>
    (s.engine.begin () batch.records).map fun e => { s with engine := e, hand := none }
  | none => none

/-- Entry to `write_batch` is the writer task's own move. -/
def entersCall : Action Unit Record → Bool
  | .begin _ _ => true
  | _ => false

def Pipeline.advance (a : Action Unit Record) : Option Pipeline :=
  if entersCall a then none
  else (step cfg.env s.engine a).map fun e => { s with engine := e }

def move : Move → Option Pipeline
  | .submit batch => some (s.submit bufferDepth batch)
  | .receive => s.receive
  | .call => s.call
  | .engine a => s.advance cfg a

end Steps

/-! ### The records a call has taken on -/

def current (pc : Pc Record) : List Record := (pc.target.map Prod.fst).toList

/-- The records of the calls that returned and of the one being served, in order. -/
def taken (e : Engine Unit Record) : List Record :=
  e.acked ++ ((e.writers ()).done ++ current (e.writers ()).pc ++ (e.writers ()).todo)

/-- Between calls the writer has no records. -/
def Rested (e : Engine Unit Record) : Prop :=
  (e.writers ()).pc = .idle → (e.writers ()).done = [] ∧ (e.writers ()).todo = []

section Taken
variable (cfg : Config) (e e' : Engine Unit Record)

theorem taken_keep (hw : e'.writers = e.writers) (ha : e'.acked = e.acked) (h : Rested e) :
    taken e' = taken e ∧ Rested e' := by
  rw [taken, Rested, hw, ha]
  exact ⟨rfl, h⟩

theorem taken_writer (w : Writer Record) (hw : e'.writers = Function.update e.writers () w)
    (hsame : e'.acked ++ (w.done ++ current w.pc ++ w.todo) = taken e)
    (hrest : w.pc = .idle → w.done = [] ∧ w.todo = []) : taken e' = taken e ∧ Rested e' := by
  rw [taken, Rested, hw, Function.update_self]
  exact ⟨hsame, hrest⟩

theorem taken_step (a : Action Unit Record) (ha : entersCall a = false) (hrest : Rested e)
    (h : Stepped cfg.env e a e') : taken e' = taken e ∧ Rested e' := by
  cases h with
  | refused i batch hpc hc => cases ha
  | begin i batch hpc hc => cases ha
  | fetchOld i done r todo mem hw hl =>
    refine taken_writer e _ ⟨.fetched r mem, done, todo⟩ rfl ?_ (by intro h; cases h)
    simp [taken, hw, current, Pc.target, Engine.setWriter]
  | fetchNew i done r todo hw hl =>
    refine taken_writer e _ ⟨.fetched r e.nextId, done, todo⟩ rfl ?_ (by intro h; cases h)
    simp [taken, hw, current, Pc.target, Engine.setWriter, Engine.alloc]
  | append i r mem done todo hw =>
    refine taken_writer e _ ⟨.appended r mem, done, todo⟩ rfl ?_ (by intro h; cases h)
    simp [taken, hw, current, Pc.target, Engine.setWriter, Engine.appendWal]
  | insert i r mem done todo hw =>
    refine taken_writer e _ ⟨.inserted (cfg.env.key r) mem, done ++ [r], todo⟩ rfl ?_
      (by intro h; cases h)
    simp [taken, hw, current, Pc.target, Engine.setWriter]
  | testFull i key mem done todo hw hf =>
    refine taken_writer e _ ⟨.full key mem, done, todo⟩ rfl ?_ (by intro h; cases h)
    simp [taken, hw, current, Pc.target, Engine.setWriter]
  | testRoom i key mem done todo hw hf =>
    refine taken_writer e _ ⟨.loop, done, todo⟩ rfl ?_ (by intro h; cases h)
    simp [taken, hw, current, Pc.target, Engine.setWriter]
  | replace i key mem done todo hw =>
    refine taken_writer e _ ⟨.frozen key mem, done, todo⟩ rfl ?_ (by intro h; cases h)
    simp [taken, hw, current, Pc.target, Engine.setWriter, Engine.alloc]
  | enqueue i key mem done todo hw hq =>
    refine taken_writer e _ ⟨.loop, done, todo⟩ rfl ?_ (by intro h; cases h)
    simp [taken, hw, current, Pc.target, Engine.setWriter]
  | dropped i key mem done todo hw hq =>
    refine taken_writer e _ ⟨.loop, done, todo⟩ rfl ?_ (by intro h; cases h)
    simp [taken, hw, current, Pc.target, Engine.setWriter]
  | finish i done hw =>
    refine taken_writer e _ ⟨.idle, [], []⟩ rfl ?_ (fun _ => ⟨rfl, rfl⟩)
    simp [taken, hw, current, Pc.target]
  | flush req stage sig stage' hw hn =>
    obtain ⟨tables, seqs, he⟩ := flushSignal_eq cfg.env e req sig
    rw [he]
    exact taken_keep e _ rfl rfl hrest
  | _ => exact taken_keep e _ rfl rfl hrest

theorem taken_begin (batch : List Record) (hrest : Rested e) (hopen : e.closed = false)
    (h : e.begin () batch = some e') : taken e' = taken e ++ batch ∧ Rested e' := by
  rw [Engine.begin] at h
  split at h
  · rename_i hpc
    rw [if_neg (by simp [hopen])] at h
    cases h
    obtain ⟨hd, ht⟩ := hrest hpc
    refine ⟨?_, ?_⟩
    · simp [taken, Engine.setWriter, current, Pc.target, hd, ht, hpc]
    · intro hidle
      simp [Engine.setWriter] at hidle
  · cases h

end Taken

/-! ### Shutdown -/

/-- `close` is called when no accepted batch waits for the writer task. -/
def Drained (s : Pipeline) : Action Unit Record → Prop
  | .close => s.channel = [] ∧ s.hand = none
  | _ => True

/-- An engine whose I/O succeeds, room in the flush queue, drained rows that decode, and a
`close` that finds the channel drained and lists the memtables between calls. -/
def Graceful (cfg : Config) (s : Pipeline) : Move → Prop
  | .engine a => Orderly s.engine a ∧ Decodes cfg.env s.engine a ∧ Drained s a
  | _ => True

instance (s : Pipeline) : (a : Action Unit Record) → Decidable (Drained s a)
  | .close => inferInstanceAs (Decidable (s.channel = [] ∧ s.hand = none))
  | .begin _ _ | .fetch _ | .append _ | .insert _ | .test _ | .replace _ | .enqueue _
  | .finish _ | .recv | .flush | .flushError | .checkpoint | .listKeys | .remove | .send
  | .ret => .isTrue trivial

instance (cfg : Config) (s : Pipeline) : (m : Move) → Decidable (Graceful cfg s m)
  | .submit _ | .receive | .call => .isTrue trivial
  | .engine a => inferInstanceAs (Decidable
      (Orderly s.engine a ∧ Decodes cfg.env s.engine a ∧ Drained s a))

def Pipeline.records (s : Pipeline) : List Record := s.accepted.flatMap IngestBatch.records

def Pipeline.waiting (s : Pipeline) : List Record :=
  s.hand.toList.flatMap IngestBatch.records ++ s.channel.flatMap IngestBatch.records

/-- The engine's invariants, and where the accepted records are: taken on by a call, or
before `close` on their way to one. -/
structure Tracked (cfg : Config) (s : Pipeline) : Prop where
  served : Served cfg.env s.engine
  intact : Intact cfg.env s.engine
  rested : Rested s.engine
  flag : s.engine.closed = false ↔ s.engine.closer = .notCalled
  before : s.engine.closed = false → s.records = taken s.engine ++ s.waiting
  after : s.engine.closed = true → s.records = taken s.engine

section Steps
variable (cfg : Config) (bufferDepth : Nat) (s t : Pipeline)

theorem tracked_new : Tracked cfg (Pipeline.new cfg) := by
  refine ⟨served_open cfg.env, intact_open cfg.env, fun _ => ⟨rfl, rfl⟩, ?_, fun _ => rfl,
    (by intro h; cases h)⟩
  simp [Pipeline.new, Engine.open]

theorem tracked_submit (hs : Tracked cfg s) (batch : IngestBatch) :
    Tracked cfg (s.submit bufferDepth batch) := by
  rw [Pipeline.submit]
  split
  · cases hc : s.engine.closed with
    | true =>
      refine ⟨hs.served, hs.intact, hs.rested, hs.flag, ?_, fun _ => hs.after hc⟩
      intro ho
      rw [hc] at ho
      cases ho
    | false =>
      refine ⟨hs.served, hs.intact, hs.rested, hs.flag, ?_, ?_⟩
      · intro _
        have hrec := hs.before hc
        simp only [Pipeline.records, Pipeline.waiting] at hrec
        simp [Pipeline.records, Pipeline.waiting, hrec]
      · intro ho
        rw [hc] at ho
        cases ho
  · exact hs

theorem tracked_receive (hs : Tracked cfg s) (h : s.receive = some t) : Tracked cfg t := by
  rw [Pipeline.receive] at h
  split at h
  · rename_i batch channel hhand hpc hch
    cases h
    refine ⟨hs.served, hs.intact, hs.rested, hs.flag, ?_, hs.after⟩
    intro ho
    have hrec := hs.before ho
    simp only [Pipeline.waiting, hhand, hch] at hrec
    simpa [Pipeline.records, Pipeline.waiting] using hrec
  · cases h

theorem tracked_call (hs : Tracked cfg s) (h : s.call = some t) : Tracked cfg t := by
  rw [Pipeline.call] at h
  split at h
  · rename_i batch hhand
    obtain ⟨e, he, rfl⟩ := Option.map_eq_some_iff.mp h
    have hserved : Served cfg.env e :=
      served_step cfg.env s.engine e (.begin () batch.records) hs.served
        ⟨rfl, trivial, trivial⟩ he
    have hintact : Intact cfg.env e :=
      intact_step cfg.env s.engine (.begin () batch.records) e hs.intact trivial trivial he
    cases hc : s.engine.closed with
    | true =>
      have hsame : e = s.engine := by
        rw [Engine.begin] at he
        split at he
        · rw [if_pos hc] at he
          exact (Option.some.inj he).symm
        · cases he
      subst hsame
      refine ⟨hs.served, hs.intact, hs.rested, hs.flag, ?_, hs.after⟩
      intro ho
      rw [hc] at ho
      cases ho
    | false =>
      obtain ⟨htaken, hrest⟩ := taken_begin s.engine e batch.records hs.rested hc he
      have hflags : e.closed = s.engine.closed ∧ e.closer = s.engine.closer := by
        have hst := stepped_begin cfg.env s.engine e () batch.records he
        cases hst with
        | refused i b hpc hc' => exact ⟨rfl, rfl⟩
        | begin i b hpc hc' => exact ⟨rfl, rfl⟩
      refine ⟨hserved, hintact, hrest, ?_, ?_, ?_⟩
      · rw [hflags.1, hflags.2]
        exact hs.flag
      · intro _
        have hrec := hs.before hc
        simp only [Pipeline.waiting, hhand] at hrec
        simp only [Pipeline.records] at hrec
        simp [Pipeline.records, Pipeline.waiting, htaken, hrec]
      · intro ho
        rw [hflags.1, hc] at ho
        cases ho
  · cases h

theorem flag_step (e e' : Engine Unit Record) (a : Action Unit Record)
    (h : Stepped cfg.env e a e') :
    (a = .close ∧ e.closer = .notCalled ∧ e'.closed = true ∧ e'.closer = .closing) ∨
      (e'.closed = e.closed ∧ (e'.closer = .notCalled ↔ e.closer = .notCalled)) := by
  cases h with
  | flush req stage sig stage' hw hn =>
    obtain ⟨tables, seqs, he⟩ := flushSignal_eq cfg.env e req sig
    rw [he]
    exact Or.inr ⟨rfl, Iff.rfl⟩
  | close hc => exact Or.inl ⟨rfl, hc, rfl, rfl⟩
  | listKeys hc => exact Or.inr ⟨rfl, by simp [hc]⟩
  | absent key keys hc hl => exact Or.inr ⟨rfl, by simp [hc]⟩
  | letGo key keys mem hc hl he => exact Or.inr ⟨rfl, by simp [hc]⟩
  | remove key keys mem hc hl he => exact Or.inr ⟨rfl, by simp [hc]⟩
  | send mem key keys hc hq => exact Or.inr ⟨rfl, by simp [hc]⟩
  | ret hc => exact Or.inr ⟨rfl, by simp [hc]⟩
  | _ => exact Or.inr ⟨rfl, Iff.rfl⟩

theorem tracked_advance (hs : Tracked cfg s) (a : Action Unit Record)
    (hok : Orderly s.engine a ∧ Decodes cfg.env s.engine a ∧ Drained s a)
    (h : s.advance cfg a = some t) : Tracked cfg t := by
  rw [Pipeline.advance] at h
  split at h
  · cases h
  · rename_i hbegin
    obtain ⟨e, he, rfl⟩ := Option.map_eq_some_iff.mp h
    have hst := stepped_of_step cfg.env s.engine a e he
    have hserved := served_step cfg.env s.engine e a hs.served hok.1 he
    have hintact := intact_step cfg.env s.engine a e hs.intact
      (safe_of_solo cfg.env s.engine a hs.intact.inv hs.served.solo) hok.2.1 he
    obtain ⟨htaken, hrest⟩ := taken_step cfg s.engine e a (by simpa using hbegin) hs.rested hst
    cases flag_step cfg s.engine e a hst with
    | inl hclose =>
      obtain ⟨rfl, hnot, hclosed, hcloser⟩ := hclose
      obtain ⟨hch, hhand⟩ := hok.2.2
      refine ⟨hserved, hintact, hrest, by simp [hclosed, hcloser], ?_, ?_⟩
      · intro ho
        rw [hclosed] at ho
        cases ho
      · intro _
        have hrec := hs.before (hs.flag.mpr hnot)
        simp only [Pipeline.waiting, hch, hhand, Option.toList_none, List.flatMap_nil,
          List.append_nil] at hrec
        rw [htaken, ← hrec]
        rfl
    | inr hsame =>
      obtain ⟨hclosed, hcloser⟩ := hsame
      refine ⟨hserved, hintact, hrest, ?_, ?_, ?_⟩
      · rw [hclosed, hcloser]
        exact hs.flag
      · intro ho
        rw [hclosed] at ho
        rw [htaken]
        exact hs.before ho
      · intro hc
        rw [hclosed] at hc
        rw [htaken]
        exact hs.after hc

theorem tracked_move (m : Move) (hs : Tracked cfg s) (hok : Graceful cfg s m)
    (h : move cfg bufferDepth s m = some t) : Tracked cfg t := by
  cases m with
  | submit batch =>
    cases h
    exact tracked_submit cfg bufferDepth s hs batch
  | receive => exact tracked_receive cfg s t hs h
  | call => exact tracked_call cfg s t hs h
  | engine a => exact tracked_advance cfg s t hs a hok h

end Steps

/-- When `close` has returned, the records of the batches accepted before it was called
are, as a multiset, those of the registered SSTables and those whose encodings the queued
memtables and the one under flush hold. -/
theorem accepted_survive (cfg : Config) (bufferDepth : Nat) (moves : List Move) (t : Pipeline)
    (hok : Along (move cfg bufferDepth) (Graceful cfg) (Pipeline.new cfg) moves)
    (hrun : run (move cfg bufferDepth) (Pipeline.new cfg) moves = some t)
    (hr : t.engine.closer = .returned) (sig : SignalType) :
    ∃ held, held + t.engine.registered sig = cfg.env.located t.records sig ∧
      t.engine.storedRows sig (t.engine.queue + t.engine.underFlush sig) =
        held.map cfg.env.stored := by
  have hs : Tracked cfg t := run_invariant (move cfg bufferDepth) (Graceful cfg) (Tracked cfg)
    (fun s m u hs hok h => tracked_move cfg bufferDepth s u m hs hok h) moves _ t
    (tracked_new cfg) hok hrun
  have hclosed : t.engine.closed = true := hs.served.solo.closed (by rw [hr]; simp)
  have hidle : (t.engine.writers ()).pc = .idle := hs.served.solo.quiet (by rw [hr]; rfl)
  have hrecords : t.records = t.engine.acked := by
    obtain ⟨hd, ht⟩ := hs.rested hidle
    rw [hs.after hclosed, taken, hd, ht, hidle]
    exact List.append_nil _
  have hperm : t.engine.acked.Perm t.engine.written :=
    Multiset.coe_eq_coe.mp (acked_of_returned cfg.env t.engine hs.served hr)
  have hlocated : cfg.env.located t.records sig = cfg.env.located t.engine.written sig := by
    rw [hrecords]
    exact Multiset.coe_eq_coe.mpr ((hperm.filter _).map _)
  rw [hlocated, ← holders_returned cfg.env t.engine hs.served hr]
  exact rows_of_intact cfg.env t.engine (faithful_env cfg) hs.intact sig

def oneLog : IngestBatch := .logs [LogRecord.bare 5 none]

def bodyAndLog : IngestBatch := .logs [bodied, LogRecord.bare 5 none]

def writtenThenClosed : List Move :=
  [.submit bodyAndLog, .receive, .call, .engine (.fetch ()), .engine (.append ()),
    .engine (.insert ()), .engine (.test ()), .engine (.fetch ()), .engine (.append ()),
    .engine (.insert ()), .engine (.test ()), .engine (.finish ()), .engine .close,
    .engine .listKeys, .engine .remove, .engine .send, .engine .ret]

/-- The memtable of both logs, of which the first would not decode, is queued. -/
theorem accepted_survive_written :
    ∃ t, run (move defaultConfig 10) (Pipeline.new defaultConfig) writtenThenClosed = some t ∧
      ∃ held, held + t.engine.registered .log =
          defaultConfig.env.located [bodyLog, log 5] .log ∧
        t.engine.storedRows .log (t.engine.queue + t.engine.underFlush .log) =
          held.map defaultConfig.env.stored :=
  ⟨_, rfl, accepted_survive defaultConfig 10 writtenThenClosed _ (by decide +kernel) rfl rfl .log⟩

/-- A batch still in the channel when `close` is called; the writer task then takes it. -/
def closedTooEarly : List Move :=
  [.submit oneLog, .engine .close, .receive, .call, .engine .listKeys, .engine .ret]

/-- `submit` accepted the batch, `close` has returned, and its record is nowhere. -/
theorem close_loses_batch :
    ∃ t, run (move defaultConfig 10) (Pipeline.new defaultConfig) closedTooEarly = some t ∧
      t.records = [log 5] ∧ t.engine.closer = .returned ∧ t.engine.queue = [] ∧
      t.engine.worker = none ∧ t.engine.sstables = [] :=
  ⟨_, rfl, rfl, rfl, rfl, rfl, rfl⟩

end InfraLens.Ingest
