import InfraLens.MemTable
import InfraLens.WalFile
import InfraLens.RecordCodec
import InfraLens.LibRun
import Mathlib.Data.List.AList

/-! The storage engine (engine.rs) as a state machine: writers, the flush worker and
`close` take one step at a time, in any order. -/
namespace InfraLens.Storage
open Model WalFile

variable {ι ρ : Type}

/-- What the engine needs to know of a record type and its encoding. -/
structure Format (ρ : Type) where
  signalType : ρ → SignalType
  timestampNs : ρ → UInt64
  serialize : ρ → List UInt8
  deserialize : SignalType → List UInt8 → Option ρ

/-- The parts of `StorageConfig` the write path reads, and the WAL's hash. -/
structure Config where
  bucketNs : UInt64
  memtableSizeBytes : Nat
  crc : List UInt8 → UInt32
  bucket_ne : bucketNs ≠ 0

theorem hour_ne_zero : (3600000000000 : UInt64) ≠ 0 := by decide

structure Env (ρ : Type) extends Format ρ, Config

/-- The records of the code with their bincode encoding. -/
def Config.env (cfg : Config) : Env Record :=
  { cfg with
    signalType := Record.signalType
    timestampNs := Record.timestampNs
    serialize := RecordCodec.serialize
    deserialize := RecordCodec.deserialize }

/-- The records without attribute values: on these the bincode encoding is lossless. -/
def Config.plainEnv (cfg : Config) : Env { r : Record // r.NoAnyValue } :=
  { cfg with
    signalType := fun r => r.1.signalType
    timestampNs := fun r => r.1.timestampNs
    serialize := fun r => RecordCodec.serialize r.1
    deserialize := fun sig data => (RecordCodec.deserialize sig data).bind fun r =>
      if h : r.NoAnyValue then some ⟨r, h⟩ else none }

def forTimestamp (timestampNs bucketNs : UInt64) : UInt64 :=
  timestampNs - timestampNs % bucketNs

def Env.key (env : Env ρ) (r : ρ) : UInt64 := forTimestamp (env.timestampNs r) env.bucketNs

def entryType : SignalType → UInt8
  | .log => entryLog
  | .metric => entryMetric
  | .span => entrySpan

/-- A frozen memtable on its way to the flush worker, with its partition. -/
structure FlushRequest where
  imm : Nat
  partition : UInt64
  deriving DecidableEq

/-- Where `flush_immutable` is: about to flush a signal or to write the checkpoint. -/
inductive Stage where
  | logs
  | metrics
  | spans
  | checkpoint
  deriving DecidableEq

/-- A registered SSTable with the records its parquet file was written from. -/
structure SSTable (ρ : Type) where
  partition : UInt64
  signalType : SignalType
  seq : Nat
  records : List ρ

/-- Where a `write_batch` call is in its loop over the records. -/
inductive Pc (ρ : Type) where
  | idle
  | loop
  | fetched (r : ρ) (mem : Nat)
  | appended (r : ρ) (mem : Nat)
  | inserted (key : UInt64) (mem : Nat)
  | full (key : UInt64) (mem : Nat)
  | frozen (key : UInt64) (mem : Nat)

/-- A task calling `write_batch`: the records of the call already inserted and those
the loop has not reached. -/
structure Writer (ρ : Type) where
  pc : Pc ρ
  done : List ρ
  todo : List ρ

/-- Where `close` is: not called, about to list the memtables, removing the listed
ones, waiting to send one, or past the flush. -/
inductive Closer where
  | notCalled
  | closing
  | flushing (keys : List UInt64)
  | sending (mem : Nat) (key : UInt64) (keys : List UInt64)
  | returned

/-- The engine. Memtables are shared by reference: `heap` holds them by identity.
The last four fields are a record of the past that no step reads: the records
inserted, the records of the calls that returned `Ok`, the requests whose flush was
dropped or failed, and the drains made. -/
structure Engine (ι ρ : Type) where
  heap : Nat → MemTable
  nextId : Nat
  memtables : AList (fun _ : UInt64 => Nat)
  wals : UInt64 → Option (List UInt8)
  queue : List FlushRequest
  worker : Option (FlushRequest × Stage)
  sstables : List (SSTable ρ)
  nextSeq : UInt64 → SignalType → Nat
  closed : Bool
  closer : Closer
  writers : ι → Writer ρ
  written : List ρ
  acked : List ρ
  orphans : List (FlushRequest × Stage)
  drained : List (Nat × SignalType)

/-- `StorageEngine::open` on an empty directory. -/
def Engine.open (env : Env ρ) : Engine ι ρ where
  heap _ := MemTable.new env.memtableSizeBytes
  nextId := 0
  memtables := ∅
  wals _ := none
  queue := []
  worker := none
  sstables := []
  nextSeq _ _ := 1
  closed := false
  closer := .notCalled
  writers _ := ⟨.idle, [], []⟩
  written := []
  acked := []
  orphans := []
  drained := []

/-- Slots of the channel to the flush worker. -/
def flushQueueDepth : Nat := 64

def Engine.alloc (env : Env ρ) (s : Engine ι ρ) (key : UInt64) : Engine ι ρ :=
  { s with
    heap := Function.update s.heap s.nextId (MemTable.new env.memtableSizeBytes)
    nextId := s.nextId + 1
    memtables := s.memtables.insert key s.nextId }

def Engine.getOrCreateMemtable (env : Env ρ) (s : Engine ι ρ) (key : UInt64) :
    Nat × Engine ι ρ :=
  match s.memtables.lookup key with
  | some mem => (mem, s)
  | none => (s.nextId, s.alloc env key)

def Engine.appendWal (env : Env ρ) (s : Engine ι ρ) (key : UInt64) (entry : WalEntry) :
    Engine ι ρ :=
  { s with
    wals := Function.update s.wals key
      (some ((s.wals key).getD [] ++ frame env.crc entry)) }

def Env.entry (env : Env ρ) (r : ρ) : WalEntry :=
  ⟨entryType (env.signalType r), env.serialize r⟩

/-- `MemTable::write_log`, `write_metric` and `write_span`. -/
def Env.write (env : Env ρ) (m : MemTable) (r : ρ) : MemTable :=
  m.insert (env.timestampNs r) (env.signalType r).toU8 (env.serialize r)

section Writers
variable [DecidableEq ι] (env : Env ρ) (s : Engine ι ρ) (i : ι)

def Engine.setWriter (w : Writer ρ) : Engine ι ρ :=
  { s with writers := Function.update s.writers i w }

def Engine.setPc (pc : Pc ρ) : Engine ι ρ :=
  s.setWriter i { s.writers i with pc := pc }

/-- Entry of `write_batch`: a closed engine refuses the call. -/
def Engine.begin (batch : List ρ) : Option (Engine ι ρ) :=
  match (s.writers i).pc with
  | .idle => if s.closed then some s else some (s.setWriter i ⟨.loop, [], batch⟩)
  | _ => none

def Engine.fetch : Option (Engine ι ρ) :=
  match s.writers i with
  | ⟨.loop, done, r :: todo⟩ =>
    let (mem, s') := s.getOrCreateMemtable env (env.key r)
    some (s'.setWriter i ⟨.fetched r mem, done, todo⟩)
  | _ => none

def Engine.append : Option (Engine ι ρ) :=
  match (s.writers i).pc with
  | .fetched r mem => some ((s.appendWal env (env.key r) (env.entry r)).setPc i (.appended r mem))
  | _ => none

def Engine.insert : Option (Engine ι ρ) :=
  match s.writers i with
  | ⟨.appended r mem, done, todo⟩ =>
    some { s.setWriter i ⟨.inserted (env.key r) mem, done ++ [r], todo⟩ with
      heap := Function.update s.heap mem (env.write (s.heap mem) r)
      written := s.written ++ [r] }
  | _ => none

/-- The size test at the top of `maybe_freeze`. -/
def Engine.test : Option (Engine ι ρ) :=
  match (s.writers i).pc with
  | .inserted key mem =>
    some (s.setPc i (if (s.heap mem).isFull then .full key mem else .loop))
  | _ => none

/-- `maybe_freeze` swaps a fresh memtable in, whatever the map holds by then. -/
def Engine.replace : Option (Engine ι ρ) :=
  match (s.writers i).pc with
  | .full key mem => some ((s.alloc env key).setPc i (.frozen key mem))
  | _ => none

/-- The `try_send` of `maybe_freeze`: with no free slot the request is dropped. -/
def Engine.enqueue : Option (Engine ι ρ) :=
  match (s.writers i).pc with
  | .frozen key mem =>
    if s.queue.length < flushQueueDepth then
      some { s.setPc i .loop with queue := s.queue ++ [⟨mem, key⟩] }
    else
      some { s.setPc i .loop with orphans := (⟨mem, key⟩, .logs) :: s.orphans }
  | _ => none

def Engine.finish : Option (Engine ι ρ) :=
  match s.writers i with
  | ⟨.loop, done, []⟩ =>
    some { s.setWriter i ⟨.idle, [], []⟩ with acked := s.acked ++ done }
  | _ => none

end Writers

def Stage.next : Stage → Option (SignalType × Stage)
  | .logs => some (.log, .metrics)
  | .metrics => some (.metric, .spans)
  | .spans => some (.span, .checkpoint)
  | .checkpoint => none

section Worker
variable (env : Env ρ) (s : Engine ι ρ)

def Engine.recv : Option (Engine ι ρ) :=
  match s.worker, s.queue with
  | none, req :: queue => some { s with worker := some (req, .logs), queue := queue }
  | _, _ => none

/-- The records `flush_signal_*` decodes from a frozen memtable: what does not decode
is left out. -/
def Env.decodeRows (m : MemTable) (sig : SignalType) : List ρ :=
  (m.drainSignal sig.toU8).filterMap fun row => env.deserialize sig row.2

/-- `flush_signal_logs`, `flush_signal_metrics` and `flush_signal_spans`: drain, write
and register one SSTable. -/
def Engine.flushSignal (req : FlushRequest) (sig : SignalType) : Engine ι ρ :=
  if (s.heap req.imm).drainSignal sig.toU8 = [] then s
  else
    let seq := s.nextSeq req.partition sig
    { s with
      sstables := s.sstables ++
        [⟨req.partition, sig, seq, env.decodeRows (s.heap req.imm) sig⟩]
      nextSeq := Function.update s.nextSeq req.partition
        (Function.update (s.nextSeq req.partition) sig (seq + 1)) }

def Engine.flush : Option (Engine ι ρ) :=
  match s.worker with
  | some (req, stage) =>
    match stage.next with
    | some (sig, stage') =>
      some { s.flushSignal env req sig with
        worker := some (req, stage'), drained := (req.imm, sig) :: s.drained }
    | none => none
  | none => none

/-- A flush that fails is logged and forgotten. -/
def Engine.flushError : Option (Engine ι ρ) :=
  match s.worker with
  | some (req, stage) =>
    match stage.next with
    | some _ => some { s with worker := none, orphans := (req, stage) :: s.orphans }
    | none => none
  | none => none

def Engine.checkpoint : Option (Engine ι ρ) :=
  match s.worker with
  | some (req, .checkpoint) =>
    if (s.wals req.partition).isSome then
      some { s.appendWal env req.partition checkpointEntry with worker := none }
    else some { s with worker := none }
  | _ => none

end Worker

section Close
variable (s : Engine ι ρ)

/-- `close` sets the flag that stops further calls. -/
def Engine.close : Option (Engine ι ρ) :=
  match s.closer with
  | .notCalled => some { s with closed := true, closer := .closing }
  | _ => none

def Engine.listKeys : Option (Engine ι ρ) :=
  match s.closer with
  | .closing => some { s with closer := .flushing s.memtables.keys }
  | _ => none

/-- `flush_all` takes the next listed memtable out of the map; an empty one is let go. -/
def Engine.remove : Option (Engine ι ρ) :=
  match s.closer with
  | .flushing (key :: keys) =>
    match s.memtables.lookup key with
    | none => some { s with closer := .flushing keys }
    | some mem =>
      some { s with
        memtables := s.memtables.erase key
        closer := if (s.heap mem).isEmpty then .flushing keys else .sending mem key keys }
  | _ => none

/-- `flush_all` awaits a free slot. -/
def Engine.send : Option (Engine ι ρ) :=
  match s.closer with
  | .sending mem key keys =>
    if s.queue.length < flushQueueDepth then
      some { s with queue := s.queue ++ [⟨mem, key⟩], closer := .flushing keys }
    else none
  | _ => none

def Engine.ret : Option (Engine ι ρ) :=
  match s.closer with
  | .flushing [] => some { s with closer := .returned }
  | _ => none

end Close

inductive Action (ι ρ : Type) where
  | begin (i : ι) (batch : List ρ)
  | fetch (i : ι)
  | append (i : ι)
  | insert (i : ι)
  | test (i : ι)
  | replace (i : ι)
  | enqueue (i : ι)
  | finish (i : ι)
  | recv
  | flush
  | flushError
  | checkpoint
  | close
  | listKeys
  | remove
  | send
  | ret

def step [DecidableEq ι] (env : Env ρ) (s : Engine ι ρ) : Action ι ρ → Option (Engine ι ρ)
  | .begin i batch => s.begin i batch
  | .fetch i => s.fetch env i
  | .append i => s.append env i
  | .insert i => s.insert env i
  | .test i => s.test i
  | .replace i => s.replace env i
  | .enqueue i => s.enqueue i
  | .finish i => s.finish i
  | .recv => s.recv
  | .flush => s.flush env
  | .flushError => s.flushError
  | .checkpoint => s.checkpoint env
  | .close => s.close
  | .listKeys => s.listKeys
  | .remove => s.remove
  | .send => s.send
  | .ret => s.ret

end InfraLens.Storage
