import InfraLens.LibStable
import InfraLens.MemTable
import InfraLens.Model

/-! The table as a sorting machine: what its readers return after any insertions. -/
namespace InfraLens.Storage
open LibMap LibStable Model

/-- The arguments of one call of `insert`. -/
structure Insertion where
  timestampNs : UInt64
  signal : SignalType
  data : List UInt8

def MemTable.insertAll (m : MemTable) (calls : List Insertion) : MemTable :=
  calls.foldl (fun m c => m.insert c.timestampNs c.signal.toU8 c.data) m

/-- `iter_all`, which despite its comment leaves the table as it is. -/
def MemTable.iterAll (m : MemTable) : List (RowKey × List UInt8) := m.inner.entries

/-- The insertions with the keys the counter gives them, in call order. -/
def keyed : Nat → List Insertion → List (RowKey × List UInt8)
  | _, [] => []
  | n, c :: calls => (⟨c.timestampNs, c.signal.toU8, n⟩, c.data) :: keyed (n + 1) calls

theorem keyed_signal (n : Nat) (calls : List Insertion) :
    ∀ e ∈ keyed n calls, ∃ t : SignalType, e.1.signalType = t.toU8 := by
  induction calls generalizing n with
  | nil => simp [keyed]
  | cons c calls ih =>
    intro e he
    cases List.mem_cons.mp he with
    | inl heq => exact ⟨c.signal, by rw [heq]⟩
    | inr hm => exact ih (n + 1) e hm

theorem keyed_sequence_le (n : Nat) (calls : List Insertion) :
    ∀ e ∈ keyed n calls, n ≤ e.1.sequence := by
  induction calls generalizing n with
  | nil => simp [keyed]
  | cons c calls ih =>
    intro e he
    cases List.mem_cons.mp he with
    | inl heq => simp [heq]
    | inr hm =>
      have h := ih (n + 1) e hm
      omega

theorem pairwise_keyed (n : Nat) (calls : List Insertion) :
    (keyed n calls).Pairwise fun a b => a.1.sequence < b.1.sequence := by
  induction calls generalizing n with
  | nil => exact List.Pairwise.nil
  | cons c calls ih =>
    refine List.pairwise_cons.mpr ⟨?_, ih (n + 1)⟩
    intro e he
    exact keyed_sequence_le (n + 1) calls e he

/-! ### Every insertion is kept -/

theorem perm_insertAll (m : MemTable) (calls : List Insertion) :
    (m.insertAll calls).iterAll.Perm (keyed m.sequence calls ++ m.iterAll) := by
  induction calls generalizing m with
  | nil => exact List.Perm.refl _
  | cons c calls ih =>
    have hstep := insert_entries_perm m c.timestampNs c.signal.toU8 c.data
    have hrest := ih (m.insert c.timestampNs c.signal.toU8 c.data)
    exact hrest.trans ((hstep.append_left _).trans List.perm_middle)

theorem perm_new_insertAll (maxSize : Nat) (calls : List Insertion) :
    ((MemTable.new maxSize).insertAll calls).iterAll.Perm (keyed 0 calls) := by
  have h := perm_insertAll (MemTable.new maxSize) calls
  simpa [MemTable.new, MemTable.iterAll, BTreeMap.empty] using h

theorem insertAll_sizeBytes (m : MemTable) (calls : List Insertion) :
    (m.insertAll calls).sizeBytes =
      m.sizeBytes + (calls.map fun c => rowKeySize + c.data.length).sum := by
  induction calls generalizing m with
  | nil => rfl
  | cons c calls ih =>
    have h := ih (m.insert c.timestampNs c.signal.toU8 c.data)
    simp only [MemTable.insertAll, List.foldl_cons, List.map_cons, List.sum_cons] at h ⊢
    rw [h]
    simp only [MemTable.insert]
    omega

theorem insertAll_maxSize (m : MemTable) (calls : List Insertion) :
    (m.insertAll calls).maxSize = m.maxSize := by
  induction calls generalizing m with
  | nil => rfl
  | cons c calls ih => exact ih (m.insert c.timestampNs c.signal.toU8 c.data)

theorem length_keyed (n : Nat) (calls : List Insertion) :
    (keyed n calls).length = calls.length := by
  induction calls generalizing n with
  | nil => rfl
  | cons c calls ih => rw [keyed, List.length_cons, ih, List.length_cons]

/-! ### The order of what is read -/

theorem RowKey.lt_iff (a b : RowKey) :
    a < b ↔ a.timestampNs.toNat < b.timestampNs.toNat ∨
      a.timestampNs.toNat = b.timestampNs.toNat ∧
        (a.signalType.toNat < b.signalType.toNat ∨
          a.signalType.toNat = b.signalType.toNat ∧ a.sequence < b.sequence) := by
  change a.lexKey < b.lexKey ↔ _
  simp only [RowKey.lexKey, Prod.Lex.toLex_lt_toLex]

def timeOf (e : RowKey × List UInt8) : Nat := e.1.timestampNs.toNat

def insertedBefore (a b : RowKey × List UInt8) : Prop := a.1.sequence < b.1.sequence

/-- Within one signal the key order is time order, and insertion order at equal times. -/
theorem pairwise_drainSignal (m : MemTable) (sig : UInt8) :
    (m.drainSignal sig).Pairwise (InOrder timeOf insertedBefore) := by
  have hsorted : (m.drainSignal sig).Pairwise fun a b => a.1 < b.1 := m.inner.sorted.filter _
  refine hsorted.imp_of_mem ?_
  intro a b ha hb hlt
  have hsa : a.1.signalType = sig := by simpa using (List.mem_filter.mp ha).2
  have hsb : b.1.signalType = sig := by simpa using (List.mem_filter.mp hb).2
  rw [RowKey.lt_iff, hsa, hsb] at hlt
  simp only [InOrder, timeOf, insertedBefore]
  omega

theorem drainSignal_eq (maxSize : Nat) (calls : List Insertion) (sig : UInt8) :
    ((MemTable.new maxSize).insertAll calls).drainSignal sig =
      stableSort timeOf ((keyed 0 calls).filter fun e => e.1.signalType = sig) := by
  apply eq_stableSort timeOf insertedBefore
  · intro a b hab hba
    exact Nat.lt_asymm hab hba
  · exact (pairwise_keyed 0 calls).filter _
  · exact (perm_new_insertAll maxSize calls).filter _
  · exact pairwise_drainSignal _ sig

theorem perm_signals (es : List (RowKey × List UInt8))
    (h : ∀ e ∈ es, ∃ t : SignalType, e.1.signalType = t.toU8) :
    es.Perm (es.filter (fun e => e.1.signalType = SignalType.log.toU8) ++
      es.filter (fun e => e.1.signalType = SignalType.metric.toU8) ++
      es.filter (fun e => e.1.signalType = SignalType.span.toU8)) := by
  induction es with
  | nil => simp
  | cons e es ih =>
    obtain ⟨t, ht⟩ := h e (by simp)
    have hrest := ih fun x hx => h x (List.mem_cons_of_mem e hx)
    refine (hrest.cons e).trans ?_
    cases t with
    | log => simp [ht, SignalType.toU8]
    | metric =>
      simp only [List.filter_cons, ht, SignalType.toU8]
      simpa using List.perm_middle.symm
    | span =>
      simp only [List.filter_cons, ht, SignalType.toU8]
      simpa [← List.append_assoc] using List.perm_middle.symm

/-! ### The counter is a `u64` -/

/-- The table with its counter as the code has it, wrapping at `u64::MAX`. The bytes that
`size_bytes` counts are all in memory, so it does not wrap. -/
structure AtomicTable where
  inner : BTreeMap RowKey (List UInt8)
  sizeBytes : Nat
  maxSize : Nat
  sequence : UInt64

def AtomicTable.new (maxSizeBytes : Nat) : AtomicTable := ⟨.empty, 0, maxSizeBytes, 0⟩

def AtomicTable.insert (m : AtomicTable) (timestampNs : UInt64) (signalType : UInt8)
    (data : List UInt8) : AtomicTable :=
  ⟨m.inner.insert ⟨timestampNs, signalType, m.sequence.toNat⟩ data,
    m.sizeBytes + (rowKeySize + data.length), m.maxSize, m.sequence + 1⟩

def AtomicTable.insertAll (m : AtomicTable) (calls : List Insertion) : AtomicTable :=
  calls.foldl (fun m c => m.insert c.timestampNs c.signal.toU8 c.data) m

def AtomicTable.isFull (m : AtomicTable) : Bool := m.maxSize ≤ m.sizeBytes

def AtomicTable.len (m : AtomicTable) : Nat := m.inner.entries.length

def AtomicTable.drainSignal (m : AtomicTable) (signalType : UInt8) :
    List (RowKey × List UInt8) :=
  m.inner.entries.filter fun e => e.1.signalType = signalType

def AtomicTable.iterAll (m : AtomicTable) : List (RowKey × List UInt8) := m.inner.entries

/-- The two tables agree while the counter has not wrapped. -/
structure AtomicTable.Refines (a : AtomicTable) (m : MemTable) : Prop where
  inner : a.inner = m.inner
  sizeBytes : a.sizeBytes = m.sizeBytes
  maxSize : a.maxSize = m.maxSize
  sequence : a.sequence.toNat = m.sequence

theorem refines_insert (a : AtomicTable) (m : MemTable) (h : a.Refines m) (ts : UInt64)
    (sig : UInt8) (data : List UInt8) (hseq : m.sequence + 1 < 2 ^ 64) :
    (a.insert ts sig data).Refines (m.insert ts sig data) := by
  refine ⟨?_, ?_, h.maxSize, ?_⟩
  · simp only [AtomicTable.insert, MemTable.insert, h.inner, h.sequence]
  · simp only [AtomicTable.insert, MemTable.insert, h.sizeBytes]
  · simp only [AtomicTable.insert, MemTable.insert, UInt64.toNat_add, h.sequence]
    exact Nat.mod_eq_of_lt hseq

theorem refines_insertAll (a : AtomicTable) (m : MemTable) (h : a.Refines m)
    (calls : List Insertion) (hseq : m.sequence + calls.length < 2 ^ 64) :
    (a.insertAll calls).Refines (m.insertAll calls) := by
  induction calls generalizing a m with
  | nil => exact h
  | cons c calls ih =>
    rw [List.length_cons] at hseq
    have hstep := refines_insert a m h c.timestampNs c.signal.toU8 c.data (by omega)
    apply ih _ _ hstep
    simp only [MemTable.insert]
    omega

def AtomicTable.filled (maxSizeBytes : Nat) (calls : List Insertion) : AtomicTable :=
  (AtomicTable.new maxSizeBytes).insertAll calls

theorem refines_filled (maxSize : Nat) (calls : List Insertion) (h : calls.length < 2 ^ 64) :
    (AtomicTable.filled maxSize calls).Refines ((MemTable.new maxSize).insertAll calls) := by
  have hstart : (AtomicTable.new maxSize).Refines (MemTable.new maxSize) := ⟨rfl, rfl, rfl, rfl⟩
  apply refines_insertAll _ _ hstart calls
  simpa [MemTable.new] using h

/-- After fewer than `2^64` insertions: each drain is the stable sort of its signal's insertions
by time, `iter_all` is a sorted interleaving of the drains, and the counts are exact. -/
theorem memtable_sorts (maxSize : Nat) (calls : List Insertion)
    (hcalls : calls.length < 2 ^ 64) :
    (∀ t : SignalType, (AtomicTable.filled maxSize calls).drainSignal t.toU8 =
      stableSort timeOf ((keyed 0 calls).filter fun e => e.1.signalType = t.toU8)) ∧
    ((AtomicTable.filled maxSize calls).iterAll.Pairwise fun a b => a.1 < b.1) ∧
    (AtomicTable.filled maxSize calls).iterAll.Perm
      ((AtomicTable.filled maxSize calls).drainSignal SignalType.log.toU8 ++
        (AtomicTable.filled maxSize calls).drainSignal SignalType.metric.toU8 ++
        (AtomicTable.filled maxSize calls).drainSignal SignalType.span.toU8) ∧
    (∀ t : SignalType, ((AtomicTable.filled maxSize calls).drainSignal t.toU8).Sublist
      (AtomicTable.filled maxSize calls).iterAll) ∧
    (AtomicTable.filled maxSize calls).len = calls.length ∧
    (AtomicTable.filled maxSize calls).sizeBytes =
      (calls.map fun c => 24 + c.data.length).sum ∧
    ((AtomicTable.filled maxSize calls).isFull = true ↔
      maxSize ≤ (calls.map fun c => 24 + c.data.length).sum) := by
  have href := refines_filled maxSize calls hcalls
  have hperm := perm_new_insertAll maxSize calls
  have hsize : (AtomicTable.filled maxSize calls).sizeBytes =
      (calls.map fun c => 24 + c.data.length).sum := by
    rw [href.sizeBytes, insertAll_sizeBytes]
    simp [MemTable.new, rowKeySize]
  have hmax : (AtomicTable.filled maxSize calls).maxSize = maxSize := by
    rw [href.maxSize, insertAll_maxSize]
    rfl
  refine ⟨?_, ?_, ?_, ?_, ?_, hsize, ?_⟩
  · intro t
    rw [AtomicTable.drainSignal, href.inner]
    exact drainSignal_eq maxSize calls t.toU8
  · rw [AtomicTable.iterAll, href.inner]
    exact BTreeMap.sorted _
  · apply perm_signals
    intro e he
    rw [AtomicTable.iterAll, href.inner] at he
    exact keyed_signal 0 calls e (hperm.mem_iff.mp he)
  · intro t
    exact List.filter_sublist
  · rw [AtomicTable.len, href.inner, ← length_keyed 0 calls]
    exact hperm.length_eq
  · rw [AtomicTable.isFull, hmax, hsize, decide_eq_true_eq]

def mixedCalls : List Insertion :=
  [⟨7, .span, [1]⟩, ⟨5, .log, []⟩, ⟨5, .span, [2, 3]⟩, ⟨7, .span, [4]⟩, ⟨5, .span, [5]⟩]

/-- Repeated times, and the last insertion is what fills the table. -/
theorem memtable_sorts_mixed :
    (AtomicTable.filled 125 mixedCalls).drainSignal 2 =
      [(⟨5, 2, 2⟩, [2, 3]), (⟨5, 2, 4⟩, [5]), (⟨7, 2, 0⟩, [1]), (⟨7, 2, 3⟩, [4])] ∧
    (AtomicTable.filled 125 mixedCalls).isFull = true := by
  obtain ⟨hdrain, -, -, -, -, -, hfull⟩ := memtable_sorts 125 mixedCalls (by decide)
  refine ⟨(hdrain .span).trans ?_, hfull.mpr ?_⟩
  · decide
  · decide

end InfraLens.Storage
