import InfraLens.Buckets

/-! A replica applies the entries it is sent (replication.rs, `apply_replica_entry`) and
acknowledges them (infralens-rpc, server.rs). -/
namespace InfraLens.Replica
open Model WalFile Storage

variable {ι ρ : Type}

/-! ### Writing one record -/

inductive StorageError where
  | closed
  | io
  deriving DecidableEq

/-- How the WAL takes the frame of a record: whole, with an error after some of its bytes, or not
at all, as the file cannot be opened, which panics. -/
inductive WalOutcome where
  | appended
  | failed (bytes : Nat)
  | unopened

section Write
variable [DecidableEq ι] (env : Env ρ) (s : Engine ι ρ) (i : ι)

def maybeFreeze : Option (Engine ι ρ) :=
  (s.test i).bind fun s =>
    match (s.writers i).pc with
    | .full _ _ => (s.replace env i).bind (·.enqueue i)
    | _ => some s

/-- The loop of `write_batch` over a single record, from the call to its return. -/
def writeSteps (r : ρ) : Option (Engine ι ρ) := do
  let s ← s.begin i [r]
  let s ← s.fetch env i
  let s ← s.append env i
  let s ← s.insert env i
  let s ← maybeFreeze env s i
  s.finish i

/-- `write_batch` of one record; none when it panics. -/
def writeBatch (wal : WalOutcome) (r : ρ) : Option (Except StorageError Unit × Engine ι ρ) :=
  if s.closed then some (.error .closed, s)
  else
    match wal with
    | .appended => (writeSteps env s i r).map fun s => (.ok (), s)
    | .failed bytes =>
      some (.error .io, { (s.getOrCreateMemtable env (env.key r)).2 with
        wals := Function.update s.wals (env.key r)
          (some ((s.wals (env.key r)).getD [] ++ (frame env.crc (env.entry r)).take bytes)) })
    | .unopened => none

/-- The memtable the partition has, or gets if it has none: which one it is, and its contents. -/
def memtableFor (key : UInt64) : Nat := (s.getOrCreateMemtable env key).1

def contentsFor (key : UInt64) : MemTable :=
  (s.getOrCreateMemtable env key).2.heap (memtableFor env s key)

/-- Where a memtable is after a record of its partition went into it: in the map as before, or,
being full now, replaced by an empty one and sent to the flush worker, or dropped when there is no
slot. -/
def Kept (key : UInt64) (mem : Nat) (t : Engine ι ρ) : Prop :=
  if (t.heap mem).isFull then
    (∃ fresh, t.memtables.lookup key = some fresh ∧
      t.heap fresh = MemTable.new env.memtableSizeBytes) ∧
    if s.queue.length < flushQueueDepth then
      t.queue = s.queue ++ [⟨mem, key⟩] ∧ t.orphans = s.orphans
    else t.queue = s.queue ∧ t.orphans = (⟨mem, key⟩, .logs) :: s.orphans
  else t.memtables.lookup key = some mem ∧ t.queue = s.queue ∧ t.orphans = s.orphans

/-- The frame of the record is at the end of the WAL of its partition, its row is in the memtable
the partition had, and nothing else is stored or lost. -/
structure Stored (r : ρ) (t : Engine ι ρ) : Prop where
  written : t.written = s.written ++ [r]
  wals : t.wals = Function.update s.wals (env.key r)
    (some ((s.wals (env.key r)).getD [] ++ frame env.crc (env.entry r)))
  row : t.heap (memtableFor env s (env.key r)) =
    env.write (contentsFor env s (env.key r)) r
  kept : Kept env s (env.key r) (memtableFor env s (env.key r)) t
  made : s.nextId ≤ t.nextId ∧ memtableFor env s (env.key r) < t.nextId
  others : ∀ mem < t.nextId, mem ≠ memtableFor env s (env.key r) →
    t.heap mem = if mem < s.nextId then s.heap mem else MemTable.new env.memtableSizeBytes
  partitions : ∀ key ≠ env.key r, t.memtables.lookup key = s.memtables.lookup key
  sstables : t.sstables = s.sstables

def Allocated : Prop := ∀ key mem, s.memtables.lookup key = some mem → mem < s.nextId

/-- What the call leaves apart from the task's own state: the insertion, -/
def inserted (r : ρ) : Engine ι ρ :=
  let mem := memtableFor env s (env.key r)
  let u := (s.getOrCreateMemtable env (env.key r)).2
  { u with
    heap := Function.update u.heap mem (env.write (u.heap mem) r)
    wals := Function.update s.wals (env.key r)
      (some ((s.wals (env.key r)).getD [] ++ frame env.crc (env.entry r)))
    written := s.written ++ [r] }

/-- and the freeze of a memtable that is full. -/
def frozen (key : UInt64) (mem : Nat) : Engine ι ρ :=
  if (s.heap mem).isFull then
    if s.queue.length < flushQueueDepth then
      { s.alloc env key with queue := s.queue ++ [⟨mem, key⟩] }
    else { s.alloc env key with orphans := (⟨mem, key⟩, .logs) :: s.orphans }
  else s

theorem insert_eq (r : ρ) (hidle : (s.writers i).pc = .idle) (hopen : s.closed = false) :
    ((s.begin i [r]).bind fun s => (s.fetch env i).bind fun s =>
        (s.append env i).bind fun s => s.insert env i) =
      some ((inserted env s r).setWriter i
        ⟨.inserted (env.key r) (memtableFor env s (env.key r)), [r], []⟩) := by
  have hbegin : s.begin i [r] = some (s.setWriter i ⟨.loop, [], [r]⟩) := by
    simp [Engine.begin, hidle, hopen]
  have hfetch : (s.setWriter i ⟨.loop, [], [r]⟩).fetch env i =
      some ((s.getOrCreateMemtable env (env.key r)).2.setWriter i
        ⟨.fetched r (memtableFor env s (env.key r)), [], []⟩) := by
    unfold memtableFor
    simp only [Engine.fetch, Engine.setWriter, Function.update_self, Engine.getOrCreateMemtable]
    cases s.memtables.lookup (env.key r) with
    | some mem => simp
    | none => simp [Engine.alloc]
  have hwals : (s.getOrCreateMemtable env (env.key r)).2.wals = s.wals ∧
      (s.getOrCreateMemtable env (env.key r)).2.written = s.written := by
    unfold Engine.getOrCreateMemtable
    cases s.memtables.lookup (env.key r) <;> exact ⟨rfl, rfl⟩
  rw [hbegin, Option.bind_some, hfetch, Option.bind_some]
  simp [Engine.append, Engine.insert, Engine.setPc, Engine.setWriter, Engine.appendWal, inserted,
    hwals.1, hwals.2]

theorem finish_eq (key : UInt64) (mem : Nat) (done : List ρ) :
    ((maybeFreeze env (s.setWriter i ⟨.inserted key mem, done, []⟩) i).bind
        fun s => s.finish i) =
      some { (frozen env s key mem).setWriter i ⟨.idle, [], []⟩ with
        acked := s.acked ++ done } := by
  by_cases hfull : (s.heap mem).isFull = true
  · by_cases hslot : s.queue.length < flushQueueDepth
    · simp [maybeFreeze, Engine.test, hfull, Engine.setPc, Engine.setWriter, Engine.replace,
        Engine.enqueue, Engine.alloc, Engine.finish, hslot, frozen]
    · simp [maybeFreeze, Engine.test, hfull, Engine.setPc, Engine.setWriter, Engine.replace,
        Engine.enqueue, Engine.alloc, Engine.finish, hslot, frozen]
  · simp [maybeFreeze, Engine.test, hfull, Engine.setPc, Engine.setWriter, Engine.finish, frozen]

omit [DecidableEq ι] in
theorem lookup_alloc (key : UInt64) :
    (s.alloc env key).memtables.lookup key = some s.nextId ∧
      ∀ key' ≠ key, (s.alloc env key).memtables.lookup key' = s.memtables.lookup key' :=
  ⟨AList.lookup_insert _, fun _ hne => AList.lookup_insert_ne hne⟩

/-- What `get_or_create_memtable` does. -/
structure Fetched (key : UInt64) (mem : Nat) (u : Engine ι ρ) : Prop where
  found : u.memtables.lookup key = some mem
  partitions : ∀ key' ≠ key, u.memtables.lookup key' = s.memtables.lookup key'
  made : s.nextId ≤ u.nextId ∧ mem < u.nextId
  others : ∀ m < u.nextId, m ≠ mem → m < s.nextId ∧ u.heap m = s.heap m
  flushes : u.queue = s.queue ∧ u.orphans = s.orphans ∧ u.sstables = s.sstables

omit [DecidableEq ι] in
theorem fetched (halloc : Allocated s) (key : UInt64) :
    Fetched s key (memtableFor env s key) (s.getOrCreateMemtable env key).2 := by
  unfold memtableFor Engine.getOrCreateMemtable
  cases hl : s.memtables.lookup key with
  | some mem =>
    exact ⟨hl, fun _ _ => rfl, ⟨Nat.le_refl _, halloc key mem hl⟩, fun m hm _ => ⟨hm, rfl⟩,
      rfl, rfl, rfl⟩
  | none =>
    obtain ⟨hnew, hold⟩ := lookup_alloc env s key
    refine ⟨hnew, hold, ⟨Nat.le_succ _, Nat.lt_succ_self _⟩, ?_, rfl, rfl, rfl⟩
    intro m hm hne
    have hlt : m < s.nextId := Nat.lt_of_le_of_ne (Nat.le_of_lt_succ hm) hne
    exact ⟨hlt, Function.update_of_ne hne _ _⟩

section Inserted
variable (halloc : Allocated s) (r : ρ)

include halloc

omit [DecidableEq ι] in
theorem heap_inserted :
    (inserted env s r).heap (memtableFor env s (env.key r)) =
        env.write (contentsFor env s (env.key r)) r ∧
      ∀ m < (inserted env s r).nextId, m ≠ memtableFor env s (env.key r) →
        m < s.nextId ∧ (inserted env s r).heap m = s.heap m := by
  refine ⟨Function.update_self _ _ _, ?_⟩
  intro m hm hne
  obtain ⟨hlt, heap⟩ := (fetched env s halloc (env.key r)).others m hm hne
  exact ⟨hlt, (Function.update_of_ne hne _ _).trans heap⟩

omit [DecidableEq ι] in
theorem stored_room
    (hroom : ((inserted env s r).heap (memtableFor env s (env.key r))).isFull = false) :
    Stored env s r (inserted env s r) := by
  have hf := fetched env s halloc (env.key r)
  obtain ⟨hrow, hothers⟩ := heap_inserted env s halloc r
  obtain ⟨hqueue, horphans, hsstables⟩ := hf.flushes
  refine ⟨rfl, rfl, hrow, ?_, hf.made, ?_, hf.partitions, hsstables⟩
  · rw [Kept, hroom]
    exact ⟨hf.found, hqueue, horphans⟩
  · intro m hm hne
    obtain ⟨hlt, heap⟩ := hothers m hm hne
    rw [heap, if_pos hlt]

omit [DecidableEq ι] in
/-- A full memtable is replaced, and its request goes where there is a place for it. -/
theorem stored_full (queue : List FlushRequest) (orphans : List (FlushRequest × Stage))
    (hfull : ((inserted env s r).heap (memtableFor env s (env.key r))).isFull = true)
    (hplace : if s.queue.length < flushQueueDepth then
        queue = s.queue ++ [⟨memtableFor env s (env.key r), env.key r⟩] ∧ orphans = s.orphans
      else queue = s.queue ∧
        orphans = (⟨memtableFor env s (env.key r), env.key r⟩, .logs) :: s.orphans) :
    Stored env s r { (inserted env s r).alloc env (env.key r) with
      queue := queue
      orphans := orphans } := by
  have hf := fetched env s halloc (env.key r)
  obtain ⟨hrow, hothers⟩ := heap_inserted env s halloc r
  have hsame : ∀ m ≠ (inserted env s r).nextId,
      ((inserted env s r).alloc env (env.key r)).heap m = (inserted env s r).heap m :=
    fun m hne => Function.update_of_ne hne _ _
  have hmem : memtableFor env s (env.key r) ≠ (inserted env s r).nextId := hf.made.2.ne
  obtain ⟨hnew, hold⟩ := lookup_alloc env (inserted env s r) (env.key r)
  refine ⟨rfl, rfl, (hsame _ hmem).trans hrow, ?_, ⟨hf.made.1.trans (Nat.le_succ _),
    hf.made.2.trans (Nat.lt_succ_self _)⟩, ?_, ?_, hf.flushes.2.2⟩
  · have hstill : (((inserted env s r).alloc env (env.key r)).heap
        (memtableFor env s (env.key r))).isFull = true := by rw [hsame _ hmem, hfull]
    rw [Kept, hstill]
    exact ⟨⟨_, hnew, Function.update_self _ _ _⟩, hplace⟩
  · intro m hm hne
    obtain heq | hlt := Nat.eq_or_lt_of_le (Nat.le_of_lt_succ hm)
    · have hfresh : ¬ m < s.nextId := heq ▸ Nat.not_lt.mpr hf.made.1
      rw [if_neg hfresh, heq]
      exact Function.update_self _ _ _
    · obtain ⟨hbefore, heap⟩ := hothers m hlt hne
      rw [if_pos hbefore, ← heap]
      exact hsame m hlt.ne
  · intro key hne
    exact (hold key hne).trans (hf.partitions key hne)

omit [DecidableEq ι] in
theorem stored_frozen : Stored env s r
    (frozen env (inserted env s r) (env.key r) (memtableFor env s (env.key r))) := by
  obtain ⟨hqueue, horphans, _⟩ := (fetched env s halloc (env.key r)).flushes
  have hqueue : (inserted env s r).queue = s.queue := hqueue
  have horphans : (inserted env s r).orphans = s.orphans := horphans
  unfold frozen
  split
  next hfull =>
    rw [hqueue]
    split
    next hslot =>
      refine stored_full env s halloc r _ _ hfull ?_
      rw [if_pos hslot]
      exact ⟨rfl, horphans⟩
    next hslot =>
      refine stored_full env s halloc r _ _ hfull ?_
      rw [if_neg hslot]
      exact ⟨hqueue, by rw [horphans]⟩
  next hroom => exact stored_room env s halloc r (Bool.eq_false_of_not_eq_true hroom)

end Inserted

theorem writeSteps_eq (r : ρ) (hidle : (s.writers i).pc = .idle) (hopen : s.closed = false) :
    writeSteps env s i r = some { (frozen env (inserted env s r) (env.key r)
        (memtableFor env s (env.key r))).setWriter i ⟨.idle, [], []⟩ with
      acked := (inserted env s r).acked ++ [r] } := by
  obtain ⟨s₁, hbegin, hrest⟩ := Option.bind_eq_some_iff.mp (insert_eq env s i r hidle hopen)
  obtain ⟨s₂, hfetch, hrest⟩ := Option.bind_eq_some_iff.mp hrest
  obtain ⟨s₃, happend, hinsert⟩ := Option.bind_eq_some_iff.mp hrest
  simp only [writeSteps, Option.bind_eq_bind, hbegin, hfetch, happend, hinsert, Option.bind_some]
  exact finish_eq env (inserted env s r) i _ _ [r]

/-- The task is between calls, and the memtables of the map have been made. -/
structure Ready : Prop where
  idle : (s.writers i).pc = .idle
  allocated : Allocated s

omit [DecidableEq ι] in
theorem allocated_alloc (h : Allocated s) (key : UInt64) : Allocated (s.alloc env key) := by
  intro key' mem hl
  obtain ⟨hnew, hold⟩ := lookup_alloc env s key
  by_cases he : key' = key
  · rw [he, hnew] at hl
    cases hl
    exact Nat.lt_succ_self _
  · rw [hold key' he] at hl
    exact Nat.lt_succ_of_lt (h key' mem hl)

omit [DecidableEq ι] in
theorem allocated_getOrCreate (h : Allocated s) (key : UInt64) :
    Allocated (s.getOrCreateMemtable env key).2 := by
  unfold Engine.getOrCreateMemtable
  cases s.memtables.lookup key with
  | some mem => exact h
  | none => exact allocated_alloc env s h key

omit [DecidableEq ι] in
theorem allocated_frozen (h : Allocated s) (key : UInt64) (mem : Nat) :
    Allocated (frozen env s key mem) := by
  unfold frozen
  split
  · split
    · exact allocated_alloc env s h key
    · exact allocated_alloc env s h key
  · exact h

/-- The task's own state is no part of what is stored. -/
theorem stored_finished (r : ρ) (u : Engine ι ρ) (acked : List ρ) (hs : Stored env s r u) :
    Stored env s r { u.setWriter i ⟨.idle, [], []⟩ with acked := acked } :=
  ⟨hs.written, hs.wals, hs.row, hs.kept, hs.made, hs.others, hs.partitions, hs.sstables⟩

theorem ready_finished (acked : List ρ) (h : Allocated s) :
    Ready { s.setWriter i ⟨.idle, [], []⟩ with acked := acked } i :=
  ⟨by simp [Engine.setWriter], h⟩

theorem writeBatch_ok (hready : Ready s i) (wal : WalOutcome) (r : ρ) (t : Engine ι ρ)
    (h : writeBatch env s i wal r = some (.ok (), t)) : Stored env s r t ∧ Ready t i := by
  unfold writeBatch at h
  split at h
  · cases h
  next hopen =>
    cases wal with
    | appended =>
      rw [writeSteps_eq env s i r hready.idle (Bool.eq_false_of_not_eq_true hopen)] at h
      cases h
      refine ⟨stored_finished env s i r _ _ (stored_frozen env s hready.allocated r),
        ready_finished _ i _ (allocated_frozen env (inserted env s r) ?_ _ _)⟩
      exact allocated_getOrCreate env s hready.allocated (env.key r)
    | failed bytes => cases h
    | unopened => cases h

/-! ### All memtables and logs -/

/-- The encoded rows of a signal in the memtables made so far. -/
def heapRows (sig : SignalType) : Multiset (List UInt8) :=
  ∑ mem ∈ Finset.range s.nextId, (s.heap mem).rows sig.toU8

def encoded (rs : List ρ) (sig : SignalType) : Multiset (List UInt8) :=
  ((rs.filter fun r => env.signalType r = sig).map env.serialize : List (List UInt8))

omit [DecidableEq ι] in
theorem rows_write (m : MemTable) (r : ρ) (sig : SignalType) :
    (env.write m r).rows sig.toU8 = m.rows sig.toU8 + encoded env [r] sig := by
  by_cases he : env.signalType r = sig
  · subst he
    rw [Env.write, rows_insert_same]
    simp [encoded, ← Multiset.singleton_add, add_comm]
  · rw [Env.write, rows_insert_other _ _ _ _ _ fun h => he (SignalType.toU8_inj _ _ h)]
    simp [encoded, he]

theorem rows_new (size : Nat) (sig : UInt8) : (MemTable.new size).rows sig = 0 :=
  rows_of_isEmpty _ rfl sig

omit [DecidableEq ι] in
theorem heapRows_eq (n : Nat) (h : s.nextId ≤ n) (sig : SignalType) :
    heapRows s sig = ∑ mem ∈ Finset.range n,
      if mem < s.nextId then (s.heap mem).rows sig.toU8 else 0 := by
  have hsub : Finset.range s.nextId ⊆ Finset.range n := Finset.range_subset_range.mpr h
  rw [← Finset.sum_subset hsub]
  · refine Finset.sum_congr rfl fun mem hmem => ?_
    rw [if_pos (Finset.mem_range.mp hmem)]
  · intro mem _ hmem
    exact if_neg fun hlt => hmem (Finset.mem_range.mpr hlt)

omit [DecidableEq ι] in
theorem rows_contentsFor (halloc : Allocated s) (key : UInt64) (sig : SignalType) :
    (contentsFor env s key).rows sig.toU8 =
      if memtableFor env s key < s.nextId then (s.heap (memtableFor env s key)).rows sig.toU8
      else 0 := by
  unfold contentsFor memtableFor Engine.getOrCreateMemtable
  cases hl : s.memtables.lookup key with
  | some mem => rw [if_pos (halloc key mem hl)]
  | none =>
    rw [if_neg (Nat.lt_irrefl _)]
    exact (congrArg (fun m => MemTable.rows m sig.toU8) (Function.update_self ..)).trans
      (rows_new _ _)

omit [DecidableEq ι] in
theorem Stored.rows {env : Env ρ} {s t : Engine ι ρ} {r : ρ} (h : Stored env s r t)
    (halloc : Allocated s) (sig : SignalType) :
    heapRows t sig = heapRows s sig + encoded env [r] sig := by
  obtain ⟨hle, hlt⟩ := h.made
  have hrow : ∀ mem ∈ Finset.range t.nextId, (t.heap mem).rows sig.toU8 =
      (if mem < s.nextId then (s.heap mem).rows sig.toU8 else 0) +
        if mem = memtableFor env s (env.key r) then encoded env [r] sig else 0 := by
    intro mem hmem
    by_cases he : mem = memtableFor env s (env.key r)
    · rw [if_pos he, he, h.row, rows_write, rows_contentsFor env s halloc]
    · rw [if_neg he, add_zero, h.others mem (Finset.mem_range.mp hmem) he]
      split
      · rfl
      · exact rows_new _ _
  rw [heapRows, Finset.sum_congr rfl hrow, Finset.sum_add_distrib, ← heapRows_eq s t.nextId hle,
    Finset.sum_ite_eq', if_pos (Finset.mem_range.mpr hlt)]

def walBytes (key : UInt64) : List UInt8 := (s.wals key).getD []

/-- What a record adds to the log of a partition. -/
def logged (closed : Bool) (wal : WalOutcome) (key : UInt64) (r : ρ) : List UInt8 :=
  if closed = true ∨ env.key r ≠ key then []
  else
    match wal with
    | .appended => frame env.crc (env.entry r)
    | .failed bytes => (frame env.crc (env.entry r)).take bytes
    | .unopened => []

omit [DecidableEq ι] in
theorem walBytes_update (t : Engine ι ρ) (key key' : UInt64) (bytes : List UInt8)
    (h : t.wals = Function.update s.wals key (some (walBytes s key ++ bytes))) :
    walBytes t key' = walBytes s key' ++ if key ≠ key' then [] else bytes := by
  unfold walBytes
  rw [h]
  by_cases he : key' = key
  · subst he
    simp [walBytes]
  · simp [Function.update_of_ne he, Ne.symm he]

/-- What a call for one record does, if it returns. -/
structure Wrote (wal : WalOutcome) (r : ρ) (ok : Bool) (t : Engine ι ρ) : Prop where
  ready : Ready t i
  closed : t.closed = s.closed
  rows : ∀ sig, heapRows t sig = heapRows s sig + encoded env (if ok then [r] else []) sig
  wals : ∀ key, walBytes t key = walBytes s key ++ logged env s.closed wal key r

omit [DecidableEq ι] in
theorem closed_frozen (r : ρ) (mem : Nat) :
    (frozen env (inserted env s r) (env.key r) mem).closed = s.closed := by
  have hclosed : (inserted env s r).closed = s.closed := by
    unfold inserted Engine.getOrCreateMemtable
    cases s.memtables.lookup (env.key r) <;> rfl
  unfold frozen
  split
  · split <;> exact hclosed
  · exact hclosed

omit [DecidableEq ι] in
theorem heapRows_getOrCreate (key : UInt64) (sig : SignalType) :
    heapRows (s.getOrCreateMemtable env key).2 sig = heapRows s sig := by
  unfold Engine.getOrCreateMemtable
  cases s.memtables.lookup key with
  | some mem => rfl
  | none =>
    simp only [heapRows, Engine.alloc, Finset.sum_range_succ, Function.update_self, rows_new,
      add_zero]
    refine Finset.sum_congr rfl fun mem hmem => ?_
    rw [Function.update_of_ne (Finset.mem_range.mp hmem).ne]

theorem encoded_append (rs rs' : List ρ) (sig : SignalType) :
    encoded env (rs ++ rs') sig = encoded env rs sig + encoded env rs' sig := by
  simp [encoded]

omit [DecidableEq ι] in
/-- The bytes of a frame that were written before the error stay in the log. -/
theorem wrote_failed (hready : Ready s i) (hopen : s.closed = false) (bytes : Nat) (r : ρ) :
    Wrote env s i (.failed bytes) r false { (s.getOrCreateMemtable env (env.key r)).2 with
      wals := Function.update s.wals (env.key r)
        (some ((s.wals (env.key r)).getD [] ++ (frame env.crc (env.entry r)).take bytes)) } where
  ready := by
    refine ⟨?_, allocated_getOrCreate env s hready.allocated (env.key r)⟩
    unfold Engine.getOrCreateMemtable
    cases s.memtables.lookup (env.key r) <;> exact hready.idle
  closed := by
    unfold Engine.getOrCreateMemtable
    cases s.memtables.lookup (env.key r) <;> rfl
  rows sig := (heapRows_getOrCreate env s (env.key r) sig).trans (add_zero _).symm
  wals key := by
    rw [walBytes_update s _ (env.key r) key _ rfl]
    simp [logged, hopen]

theorem wrote (hready : Ready s i) (wal : WalOutcome) (r : ρ)
    (res : Except StorageError Unit) (t : Engine ι ρ)
    (h : writeBatch env s i wal r = some (res, t)) : Wrote env s i wal r res.isOk t := by
  cases hclosed : s.closed with
  | true =>
    unfold writeBatch at h
    rw [if_pos hclosed] at h
    cases h
    exact ⟨hready, rfl, fun sig => (add_zero _).symm, fun key => by simp [logged, hclosed]⟩
  | false =>
    cases wal with
    | appended =>
      have hsteps := writeSteps_eq env s i r hready.idle hclosed
      have hcall := h
      rw [writeBatch, hclosed, hsteps] at hcall
      cases hcall
      obtain ⟨hstored, hready'⟩ := writeBatch_ok env s i hready .appended r _ h
      refine ⟨hready', closed_frozen env s r _, hstored.rows hready.allocated, fun key => ?_⟩
      rw [walBytes_update s _ (env.key r) key _ hstored.wals]
      simp [logged, hclosed]
    | failed bytes =>
      rw [writeBatch, hclosed] at h
      cases h
      exact wrote_failed env s i hready hclosed bytes r
    | unopened =>
      rw [writeBatch, hclosed] at h
      cases h

end Write

/-! ### Applying an entry -/

structure ReplicateRequest where
  sequence : UInt64
  walEntry : List UInt8
  partitionKey : String
  signal : String
  nodeId : String

structure ReplicateAck where
  sequence : UInt64
  accepted : Bool
  error : String
  deriving DecidableEq

structure ReplicationEntry where
  sequence : UInt64
  partitionKey : String
  signal : String
  walBytes : List UInt8

/-- `ClusterError::ReplicationFailed`, with the error of the local storage. -/
inductive ApplyError where
  | replicationFailed (node : String) (reason : StorageError)

section Apply
variable [DecidableEq ι] (env : Env ρ) (s : Engine ι ρ) (i : ι) (wal : WalOutcome)

/-- What does not decode is passed over. -/
def applyRecord : Option ρ → Option (Except ApplyError Unit × Engine ι ρ)
  | none => some (.ok (), s)
  | some r => (writeBatch env s i wal r).map fun p =>
      (p.1.mapError fun e => .replicationFailed "local" e, p.2)

def applyReplicaEntry (entry : ReplicationEntry) :
    Option (Except ApplyError Unit × Engine ι ρ) :=
  match entry.walBytes with
  | [] => some (.ok (), s)
  | entryType :: data =>
    if entryType = entryLog then applyRecord env s i wal (env.deserialize .log data)
    else if entryType = entryMetric then applyRecord env s i wal (env.deserialize .metric data)
    else if entryType = entrySpan then applyRecord env s i wal (env.deserialize .span data)
    else some (.ok (), s)

/-- One turn of the loop of the `Replicate` handler; none when the task panics. -/
def handle (req : ReplicateRequest) : Option (ReplicateAck × Engine ι ρ) :=
  (applyReplicaEntry env s i wal ⟨req.sequence, req.partitionKey, req.signal, req.walEntry⟩).map
    fun p => (⟨req.sequence, p.1.isOk, ""⟩, p.2)

/-- The record that bytes encode: a type byte, then the record. -/
def decodeEntry : List UInt8 → Option ρ
  | [] => none
  | entryType :: data =>
    if entryType = entryLog then env.deserialize .log data
    else if entryType = entryMetric then env.deserialize .metric data
    else if entryType = entrySpan then env.deserialize .span data
    else none

theorem applyReplicaEntry_eq (entry : ReplicationEntry) :
    applyReplicaEntry env s i wal entry =
      applyRecord env s i wal (decodeEntry env entry.walBytes) := by
  unfold applyReplicaEntry decodeEntry
  cases entry.walBytes with
  | nil => rfl
  | cons entryType data =>
    simp only
    split
    · rfl
    · split
      · rfl
      · split <;> rfl

/-- What is acknowledged as accepted is stored, and what encodes no record is neither accepted
nor does it change the storage. -/
def Lawful (req : ReplicateRequest) : Prop :=
  ∀ ack t, handle env s i wal req = some (ack, t) →
    (ack.accepted = true → ∃ r, decodeEntry env req.walEntry = some r ∧ Stored env s r t) ∧
      (decodeEntry env req.walEntry = none → ack.accepted = false ∧ t = s)

theorem handle_none (req : ReplicateRequest) (h : decodeEntry env req.walEntry = none) :
    handle env s i wal req = some (⟨req.sequence, true, ""⟩, s) := by
  rw [handle, applyReplicaEntry_eq, h]
  rfl

theorem handle_some (req : ReplicateRequest) (r : ρ) (h : decodeEntry env req.walEntry = some r) :
    handle env s i wal req = (writeBatch env s i wal r).map fun p =>
      (⟨req.sequence, p.1.isOk, ""⟩, p.2) := by
  rw [handle, applyReplicaEntry_eq, h, applyRecord, Option.map_map]
  refine congrArg (Option.map · _) (funext fun p => ?_)
  obtain ⟨res, t⟩ := p
  cases res <;> rfl

/-- An entry is handled as it should exactly when its bytes encode a record: the handler accepts
every other entry as well, and stores nothing. -/
theorem accepted_stored_iff (req : ReplicateRequest) (hready : Ready s i) :
    Lawful env s i wal req ↔ ∃ r, decodeEntry env req.walEntry = some r := by
  constructor
  · intro hlaw
    cases hdecode : decodeEntry env req.walEntry with
    | some r => exact ⟨r, rfl⟩
    | none =>
      have hrefused := (hlaw _ _ (handle_none env s i wal req hdecode)).2 hdecode
      cases hrefused.1
  · rintro ⟨r, hdecode⟩ ack t hhandle
    rw [handle_some env s i wal req r hdecode] at hhandle
    obtain ⟨⟨res, u⟩, hwrite, heq⟩ := Option.map_eq_some_iff.mp hhandle
    cases heq
    refine ⟨fun hacc => ⟨r, hdecode, ?_⟩, fun hnone => ?_⟩
    · cases res with
      | error e => cases hacc
      | ok _ => exact (writeBatch_ok env s i hready wal r u hwrite).1
    · rw [hdecode] at hnone
      cases hnone

end Apply

def replicaConfig : Config := ⟨3600000000000, 150, fun _ => 0, hour_ne_zero⟩

def replicateRequest (walEntry : List UInt8) : ReplicateRequest := ⟨7, walEntry, "", "logs", "a"⟩

theorem decodeEntry_type (env : Env ρ) (sig : SignalType) (data : List UInt8) :
    decodeEntry env (entryType sig :: data) = env.deserialize sig data := by
  cases sig <;> rfl

theorem decodeEntry_encoded (cfg : Config) (r : Record) :
    decodeEntry cfg.env (entryType r.signalType :: RecordCodec.serialize r) =
      RecordCodec.deserialize r.signalType (RecordCodec.serialize r) :=
  decodeEntry_type cfg.env r.signalType (RecordCodec.serialize r)

/-- The bytes of a record encode it, unless it carries an attribute value. -/
theorem decodeEntry_encoded_iff (cfg : Config) (r : Record) :
    decodeEntry cfg.env (entryType r.signalType :: RecordCodec.serialize r) = some r ↔
      r.NoAnyValue := by
  rw [decodeEntry_encoded]
  constructor
  · intro h
    by_contra hany
    rw [RecordCodec.deserialize_serialize_none r hany] at h
    cases h
  · exact RecordCodec.deserialize_serialize r

theorem allocated_run (env : Env ρ) [DecidableEq ι] (acts : List (Action ι ρ)) (s : Engine ι ρ)
    (h : LibRun.run (step env) (Engine.open env) acts = some s) : Allocated s := by
  obtain ⟨home, hrouted⟩ := routed_run env acts s h
  intro key mem hl
  exact (hrouted.held key mem (.active hl)).1

/-- Another task has put a log into the partition and returned. -/
def oneStored : List (Action Bool Record) :=
  [.begin false [.log (LogRecord.bare 3 none)], .fetch false, .append false, .insert false,
    .test false, .finish false]

def afterOne : Engine Bool Record :=
  (LibRun.run (step replicaConfig.env) (Engine.open replicaConfig.env) oneStored).getD
    (Engine.open replicaConfig.env)

/-- A log without a body: it fills the memtable, which is frozen and queued. -/
theorem accepted_stored_bare :
    Lawful replicaConfig.env afterOne true .appended
      (replicateRequest (entryType .log ::
        RecordCodec.serialize (.log (LogRecord.bare 5 none)))) :=
  (accepted_stored_iff replicaConfig.env afterOne true .appended
    (replicateRequest (entryType .log :: RecordCodec.serialize (.log (LogRecord.bare 5 none))))
    ⟨rfl, allocated_run replicaConfig.env oneStored afterOne rfl⟩).mpr
    ⟨_, (decodeEntry_encoded_iff replicaConfig (.log (LogRecord.bare 5 none))).mpr
      (LogRecord.bare_noAnyValue 5)⟩

/-- No bytes, an unknown type and a log record with a body are accepted, and nothing is stored. -/
theorem accepted_unstored :
    handle replicaConfig.env (Engine.open replicaConfig.env : Engine Unit Record) () .appended
        (replicateRequest []) = some (⟨7, true, ""⟩, Engine.open replicaConfig.env) ∧
      handle replicaConfig.env (Engine.open replicaConfig.env : Engine Unit Record) () .appended
        (replicateRequest [9]) = some (⟨7, true, ""⟩, Engine.open replicaConfig.env) ∧
      handle replicaConfig.env (Engine.open replicaConfig.env : Engine Unit Record) () .appended
        (replicateRequest (entryType .log :: RecordCodec.serialize bodyLog)) =
          some (⟨7, true, ""⟩, Engine.open replicaConfig.env) := by
  have hany : ¬ bodyLog.NoAnyValue := by
    simp [bodyLog, bodied, Record.NoAnyValue, LogRecord.NoAnyValue, LogRecord.bare]
  have hnone : decodeEntry replicaConfig.env
      (entryType .log :: RecordCodec.serialize bodyLog) = none :=
    (decodeEntry_encoded replicaConfig bodyLog).trans
      (RecordCodec.deserialize_serialize_none bodyLog hany)
  refine ⟨handle_none _ _ _ _ (replicateRequest []) rfl,
    handle_none _ _ _ _ (replicateRequest [9]) rfl, ?_⟩
  exact handle_none _ _ _ _
    (replicateRequest (entryType .log :: RecordCodec.serialize bodyLog)) hnone

/-! ### The stream -/

section Stream
variable [DecidableEq ι] (env : Env ρ) (i : ι)

/-- The loop of the handler over the requests of a stream, each with what the WAL does. A panic
ends the task. -/
def replicate (s : Engine ι ρ) :
    List (ReplicateRequest × WalOutcome) → List ReplicateAck × Engine ι ρ
  | [] => ([], s)
  | (req, wal) :: reqs =>
    match handle env s i wal req with
    | some (ack, t) => ((ack :: (replicate t reqs).1), (replicate t reqs).2)
    | none => ([], s)

def acceptedRecords (reqs : List (ReplicateRequest × WalOutcome)) (acks : List ReplicateAck) :
    List ρ :=
  (reqs.zip acks).filterMap fun p => if p.2.accepted then decodeEntry env p.1.1.walEntry else none

/-- What the requests that were answered added to the log of a partition. -/
def loggedBytes (closed : Bool) (key : UInt64) (reqs : List (ReplicateRequest × WalOutcome))
    (acks : List ReplicateAck) : List UInt8 :=
  (reqs.zip acks).flatMap fun p =>
    (decodeEntry env p.1.1.walEntry).toList.flatMap (logged env closed p.1.2 key)

theorem handle_effect (s : Engine ι ρ) (wal : WalOutcome) (req : ReplicateRequest)
    (hready : Ready s i) (ack : ReplicateAck) (t : Engine ι ρ)
    (h : handle env s i wal req = some (ack, t)) :
    Ready t i ∧ t.closed = s.closed ∧
      (∀ sig, heapRows t sig = heapRows s sig + encoded env
        (if ack.accepted then decodeEntry env req.walEntry else none).toList sig) ∧
      ∀ key, walBytes t key = walBytes s key ++
        (decodeEntry env req.walEntry).toList.flatMap (logged env s.closed wal key) := by
  cases hdecode : decodeEntry env req.walEntry with
  | none =>
    rw [handle_none env s i wal req hdecode] at h
    cases h
    exact ⟨hready, rfl, fun sig => (add_zero _).symm, fun key => (List.append_nil _).symm⟩
  | some r =>
    rw [handle_some env s i wal req r hdecode] at h
    obtain ⟨⟨res, u⟩, hwrite, heq⟩ := Option.map_eq_some_iff.mp h
    cases heq
    have hw := wrote env s i hready wal r res u hwrite
    refine ⟨hw.ready, hw.closed, fun sig => ?_, fun key => ?_⟩
    · rw [hw.rows sig]
      cases res <;> rfl
    · rw [hw.wals key, Option.toList_some, List.flatMap_singleton]

/-- A stream puts the records of the requests it accepts into the memtables, and no others. Each
log gets the frames of the records that were written, whole or up to the error. -/
theorem replicate_stored (reqs : List (ReplicateRequest × WalOutcome)) (s : Engine ι ρ)
    (hready : Ready s i) :
    (∀ sig, heapRows (replicate env i s reqs).2 sig = heapRows s sig +
        encoded env (acceptedRecords env reqs (replicate env i s reqs).1) sig) ∧
      ∀ key, walBytes (replicate env i s reqs).2 key = walBytes s key ++
        loggedBytes env s.closed key reqs (replicate env i s reqs).1 := by
  induction reqs generalizing s with
  | nil => exact ⟨fun sig => (add_zero _).symm, fun key => (List.append_nil _).symm⟩
  | cons p reqs ih =>
    obtain ⟨req, wal⟩ := p
    cases hhandle : handle env s i wal req with
    | none =>
      simp only [replicate, hhandle]
      exact ⟨fun sig => (add_zero _).symm, fun key => (List.append_nil _).symm⟩
    | some q =>
      obtain ⟨ack, t⟩ := q
      obtain ⟨hready', hclosed, hrows, hwals⟩ := handle_effect env i s wal req hready ack t hhandle
      obtain ⟨hrest, hlog⟩ := ih t hready'
      simp only [replicate, hhandle]
      refine ⟨fun sig => ?_, fun key => ?_⟩
      · rw [hrest sig, hrows sig, add_assoc, ← encoded_append]
        congr 2
        simp only [acceptedRecords, List.zip_cons_cons, List.filterMap_cons]
        cases (if ack.accepted = true then decodeEntry env req.walEntry else none) <;> rfl
      · rw [hlog key, hwals key, hclosed, List.append_assoc]
        rfl

end Stream

end InfraLens.Replica
