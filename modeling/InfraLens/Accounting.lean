import InfraLens.EngineSteps
import InfraLens.LibLedger

/-! Where the records are: each signal of the engine seen as a ledger of memtables, and
every safe step as a step of that ledger. -/
namespace InfraLens.Storage
open Model LibRun LibMap

variable {ι ρ : Type}

def activeOf (memtables : AList (fun _ : UInt64 => Nat)) : Multiset FlushRequest :=
  (memtables.entries.map fun e => ⟨e.2, e.1⟩ : List FlushRequest)

/-- The frozen memtable a writer has swapped out and not yet offered to the queue. -/
def Pc.hand : Pc ρ → Multiset FlushRequest
  | .frozen key mem => {⟨mem, key⟩}
  | _ => 0

/-- The record a writer has still to insert, and the memtable it fetched for it. -/
def Pc.target : Pc ρ → Option (ρ × Nat)
  | .fetched r mem => some (r, mem)
  | .appended r mem => some (r, mem)
  | _ => none

/-- The memtable a writer found full, under its partition. -/
def Pc.filled : Pc ρ → Option (UInt64 × Nat)
  | .full key mem => some (key, mem)
  | _ => none

def Closer.nextKey : Closer → Option UInt64
  | .flushing (key :: _) => some key
  | _ => none

def Closer.hand : Closer → Multiset FlushRequest
  | .sending mem key _ => {⟨mem, key⟩}
  | _ => 0

@[simp] theorem Closer.hand_sending (mem : Nat) (key : UInt64) (keys : List UInt64) :
    (Closer.sending mem key keys).hand = {⟨mem, key⟩} := rfl

@[simp] theorem Closer.hand_flushing (keys : List UInt64) : (Closer.flushing keys).hand = 0 := rfl

def Stage.pending : Stage → SignalType → Bool
  | .logs, _ => true
  | .metrics, sig => sig ≠ .log
  | .spans, sig => sig = .span
  | .checkpoint, _ => false

/-- The requests of a flush whose drain for `sig` has not happened. -/
def undrained (flushes : List (FlushRequest × Stage)) (sig : SignalType) :
    Multiset FlushRequest :=
  ((flushes.filter fun f => f.2.pending sig).map Prod.fst : List FlushRequest)

def Engine.active (s : Engine ι ρ) : Multiset FlushRequest := activeOf s.memtables

def Engine.underFlush (s : Engine ι ρ) (sig : SignalType) : Multiset FlushRequest :=
  undrained s.worker.toList sig

def Engine.inHand [Fintype ι] (s : Engine ι ρ) : Multiset FlushRequest :=
  (∑ i, (s.writers i).pc.hand) + s.closer.hand

def Engine.orphaned (s : Engine ι ρ) (sig : SignalType) : Multiset FlushRequest :=
  undrained s.orphans sig

/-- The memtables whose rows of `sig` are not yet in an SSTable. -/
def Engine.holders [Fintype ι] (s : Engine ι ρ) (sig : SignalType) : Multiset FlushRequest :=
  s.active + s.inHand + s.queue + s.underFlush sig + s.orphaned sig

def Engine.drainedOf (s : Engine ι ρ) (sig : SignalType) : Multiset Nat :=
  ((s.drained.filter fun d => d.2 = sig).map Prod.fst : List Nat)

/-- The records of `sig` a memtable gives back when it is drained. -/
def Env.decoded (env : Env ρ) (m : MemTable) (sig : SignalType) : Multiset ρ :=
  (env.decodeRows m sig : List ρ)

/-- The records of some memtables, each with its memtable's partition. -/
def Engine.contents (env : Env ρ) (s : Engine ι ρ) (sig : SignalType)
    (held : Multiset FlushRequest) : Multiset (UInt64 × ρ) :=
  held.bind fun h => (env.decoded (s.heap h.imm) sig).map (Prod.mk h.partition)

/-- The records of the registered SSTables of a signal, each with its partition. -/
def Engine.registered (s : Engine ι ρ) (sig : SignalType) : Multiset (UInt64 × ρ) :=
  ((s.sstables.filter fun t => t.signalType = sig).flatMap fun t =>
    t.records.map (Prod.mk t.partition) : List (UInt64 × ρ))

def Env.reread (env : Env ρ) (r : ρ) : Option ρ :=
  env.deserialize (env.signalType r) (env.serialize r)

/-- The records of a signal as they are read back, each with its partition. -/
def Env.survivors (env : Env ρ) (rs : List ρ) (sig : SignalType) : Multiset (UInt64 × ρ) :=
  ((rs.filter fun r => env.signalType r = sig).filterMap fun r =>
    (env.reread r).map (Prod.mk (env.key r)) : List (UInt64 × ρ))

def Engine.view [Fintype ι] (env : Env ρ) (s : Engine ι ρ) (sig : SignalType) :
    LibLedger.Ledger FlushRequest Nat UInt64 ρ where
  issued := Set.Iio s.nextId
  held := s.holders sig
  spent := s.drainedOf sig
  contents m := env.decoded (s.heap m) sig
  archive := s.registered sig
  written := env.survivors s.written sig

def Engine.frozen [Fintype ι] (s : Engine ι ρ) (sig : SignalType) : Multiset FlushRequest :=
  s.inHand + s.queue + s.underFlush sig

def Env.located (env : Env ρ) (rs : List ρ) (sig : SignalType) : Multiset (UInt64 × ρ) :=
  ((rs.filter fun r => env.signalType r = sig).map fun r => (env.key r, r) : List (UInt64 × ρ))

theorem survivors_of_reread (env : Env ρ) (rs : List ρ) (sig : SignalType)
    (h : ∀ r ∈ rs, env.reread r = some r) : env.survivors rs sig = env.located rs sig := by
  rw [Env.survivors, Env.located, ← List.filterMap_eq_map]
  congr 1
  apply List.filterMap_congr
  intro r hr
  rw [h r (List.mem_filter.mp hr).1]
  rfl

theorem contents_add (env : Env ρ) (s : Engine ι ρ) (sig : SignalType)
    (A B : Multiset FlushRequest) :
    s.contents env sig (A + B) = s.contents env sig A + s.contents env sig B :=
  Multiset.add_bind _ _ _

/-! ### Contents of a memtable -/

theorem decoded_eq (env : Env ρ) (m : MemTable) (sig : SignalType) :
    env.decoded m sig = (m.rows sig.toU8).filterMap (env.deserialize sig) := by
  simp [Env.decoded, Env.decodeRows, MemTable.rows, List.filterMap_map]

@[simp] theorem decoded_new (env : Env ρ) (n : Nat) (sig : SignalType) :
    env.decoded (MemTable.new n) sig = 0 := rfl

theorem decoded_write_same (env : Env ρ) (m : MemTable) (r : ρ) :
    env.decoded (env.write m r) (env.signalType r) =
      env.decoded m (env.signalType r) + ((env.reread r).toList : Multiset ρ) := by
  rw [decoded_eq, Env.write, rows_insert_same, decoded_eq, Env.reread]
  cases hd : env.deserialize (env.signalType r) (env.serialize r) with
  | none => simp [Multiset.filterMap_cons_none _ _ hd]
  | some r' => simp [Multiset.filterMap_cons_some _ _ _ hd, add_comm, Multiset.singleton_add]

theorem decoded_write_other (env : Env ρ) (m : MemTable) (r : ρ) (sig : SignalType)
    (h : env.signalType r ≠ sig) : env.decoded (env.write m r) sig = env.decoded m sig := by
  have hu : (env.signalType r).toU8 ≠ sig.toU8 := fun he => h (SignalType.toU8_inj _ _ he)
  rw [decoded_eq, Env.write, rows_insert_other _ _ _ _ _ hu, decoded_eq]

theorem decoded_of_isEmpty (env : Env ρ) (m : MemTable) (sig : SignalType)
    (h : m.isEmpty = true) : env.decoded m sig = 0 := by
  rw [decoded_eq, rows_of_isEmpty m h, Multiset.filterMap_zero]

theorem survivors_snoc_same (env : Env ρ) (rs : List ρ) (r : ρ) :
    env.survivors (rs ++ [r]) (env.signalType r) =
      env.survivors rs (env.signalType r) +
        ((env.reread r).toList : Multiset ρ).map (Prod.mk (env.key r)) := by
  cases hd : env.reread r with
  | none => simp [Env.survivors, hd]
  | some r' => simp [Env.survivors, hd, ← Multiset.coe_add]

theorem survivors_snoc_other (env : Env ρ) (rs : List ρ) (r : ρ) (sig : SignalType)
    (h : env.signalType r ≠ sig) : env.survivors (rs ++ [r]) sig = env.survivors rs sig := by
  simp [Env.survivors, h]

/-! ### The map of active memtables -/

theorem activeOf_insert (m : AList (fun _ : UInt64 => Nat)) (key : UInt64) (mem : Nat) :
    activeOf (m.insert key mem) = {⟨mem, key⟩} + activeOf (m.erase key) := rfl

theorem activeOf_insert_new (m : AList (fun _ : UInt64 => Nat)) (key : UInt64) (mem : Nat)
    (h : m.lookup key = none) : activeOf (m.insert key mem) = {⟨mem, key⟩} + activeOf m := by
  rw [activeOf_insert]
  congr 1
  rw [activeOf, erase_entries_of_lookup_none m key h, activeOf]

theorem activeOf_erase (m : AList (fun _ : UInt64 => Nat)) (key : UInt64) (mem : Nat)
    (h : m.lookup key = some mem) : activeOf m = {⟨mem, key⟩} + activeOf (m.erase key) := by
  have hp := (entries_perm_of_lookup m key mem h).map
    (fun e => (⟨e.2, e.1⟩ : FlushRequest))
  rw [activeOf, Multiset.coe_eq_coe.mpr hp]
  rfl

theorem mem_activeOf (m : AList (fun _ : UInt64 => Nat)) (key : UInt64) (mem : Nat)
    (h : m.lookup key = some mem) : (⟨mem, key⟩ : FlushRequest) ∈ activeOf m := by
  rw [activeOf_erase m key mem h]
  simp

/-! ### Flushes -/

theorem next_pending (stage stage' : Stage) (sig : SignalType)
    (h : stage.next = some (sig, stage')) :
    stage.pending sig = true ∧ stage'.pending sig = false ∧
      ∀ sig', sig' ≠ sig → stage'.pending sig' = stage.pending sig' := by
  cases stage with
  | checkpoint => cases h
  | _ =>
    cases h
    refine ⟨rfl, rfl, ?_⟩
    intro sig' hne
    cases sig' <;> first | rfl | exact absurd rfl hne

theorem underFlush_checkpoint (s : Engine ι ρ) (sig : SignalType) (req : FlushRequest)
    (hw : s.worker = some (req, .checkpoint)) : s.underFlush sig = 0 := by
  rw [Engine.underFlush, hw]
  rfl

@[simp] theorem undrained_nil (sig : SignalType) : undrained [] sig = 0 := rfl

theorem undrained_cons_pending (req : FlushRequest) (stage : Stage)
    (fs : List (FlushRequest × Stage)) (sig : SignalType) (h : stage.pending sig = true) :
    undrained ((req, stage) :: fs) sig = {req} + undrained fs sig := by
  simp [undrained, h, Multiset.singleton_add]

theorem undrained_cons_drained (req : FlushRequest) (stage : Stage)
    (fs : List (FlushRequest × Stage)) (sig : SignalType) (h : stage.pending sig = false) :
    undrained ((req, stage) :: fs) sig = undrained fs sig := by
  simp [undrained, h]

end InfraLens.Storage
