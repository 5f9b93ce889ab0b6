import InfraLens.LibMap
import Mathlib.Data.Prod.Lex
import Mathlib.Data.Multiset.Filter
import Mathlib.Order.Lattice.Nat

/-! The in-memory table (memtable.rs): rows ordered by time, signal and insertion. -/
namespace InfraLens.Storage
open LibMap

structure RowKey where
  timestampNs : UInt64
  signalType : UInt8
  sequence : Nat
  deriving DecidableEq

/-- The derived order: timestamp, then signal type, then sequence. -/
def RowKey.lexKey (k : RowKey) : Nat ×ₗ (Nat ×ₗ Nat) :=
  toLex (k.timestampNs.toNat, toLex (k.signalType.toNat, k.sequence))

theorem RowKey.lexKey_injective : Function.Injective RowKey.lexKey := by
  intro a b h
  have h1 := congrArg (fun x => (ofLex x).1) h
  have h2 := congrArg (fun x => (ofLex (ofLex x).2).1) h
  have h3 := congrArg (fun x => (ofLex (ofLex x).2).2) h
  obtain ⟨ta, sa, qa⟩ := a
  obtain ⟨tb, sb, qb⟩ := b
  have ht : ta = tb := UInt64.toNat_inj.mp h1
  have hs : sa = sb := UInt8.toNat_inj.mp h2
  have hq : qa = qb := h3
  rw [ht, hs, hq]

instance : LinearOrder RowKey := LinearOrder.lift' RowKey.lexKey RowKey.lexKey_injective

/-- Bytes of a `RowKey` in memory. -/
def rowKeySize : Nat := 24

structure MemTable where
  inner : BTreeMap RowKey (List UInt8)
  sizeBytes : Nat
  maxSize : Nat
  sequence : Nat
  /-- Every stored key was given out by the sequence counter. -/
  fresh : ∀ e ∈ inner.entries, e.1.sequence < sequence

def MemTable.new (maxSizeBytes : Nat) : MemTable where
  inner := BTreeMap.empty
  sizeBytes := 0
  maxSize := maxSizeBytes
  sequence := 0
  fresh := by simp [BTreeMap.empty]

def MemTable.insert (m : MemTable) (timestampNs : UInt64) (signalType : UInt8)
    (data : List UInt8) : MemTable where
  inner := m.inner.insert ⟨timestampNs, signalType, m.sequence⟩ data
  sizeBytes := m.sizeBytes + (rowKeySize + data.length)
  maxSize := m.maxSize
  sequence := m.sequence + 1
  fresh := by
    intro e he
    cases (m.inner.mem_insert _ _ e).mp he with
    | inl h => simp [h]
    | inr h => exact Nat.lt_succ_of_lt (m.fresh e h.1)

def MemTable.isFull (m : MemTable) : Bool := m.maxSize ≤ m.sizeBytes

def MemTable.len (m : MemTable) : Nat := m.inner.entries.length

def MemTable.isEmpty (m : MemTable) : Bool := m.inner.entries.isEmpty

/-- The rows of one signal in key order; the table keeps them. -/
def MemTable.drainSignal (m : MemTable) (signalType : UInt8) : List (RowKey × List UInt8) :=
  m.inner.entries.filter (fun e => e.1.signalType = signalType)

theorem insert_entries_perm (m : MemTable) (ts : UInt64) (sig : UInt8) (data : List UInt8) :
    (m.insert ts sig data).inner.entries.Perm
      ((⟨ts, sig, m.sequence⟩, data) :: m.inner.entries) := by
  apply insertEntry_perm
  intro e he hk
  have h := m.fresh e he
  rw [hk] at h
  exact Nat.lt_irrefl _ h

def MemTable.rows (m : MemTable) (sig : UInt8) : Multiset (List UInt8) :=
  ((m.drainSignal sig).map Prod.snd : List (List UInt8))

theorem rows_insert_same (m : MemTable) (ts : UInt64) (sig : UInt8) (data : List UInt8) :
    (m.insert ts sig data).rows sig = data ::ₘ m.rows sig := by
  have hp := ((insert_entries_perm m ts sig data).filter
    (fun e => decide (e.1.signalType = sig))).map Prod.snd
  simp only [MemTable.rows, MemTable.drainSignal]
  rw [Multiset.coe_eq_coe.mpr hp]
  simp

theorem rows_insert_other (m : MemTable) (ts : UInt64) (sig sig' : UInt8) (data : List UInt8)
    (h : sig ≠ sig') : (m.insert ts sig data).rows sig' = m.rows sig' := by
  have hp := ((insert_entries_perm m ts sig data).filter
    (fun e => decide (e.1.signalType = sig'))).map Prod.snd
  simp only [MemTable.rows, MemTable.drainSignal]
  rw [Multiset.coe_eq_coe.mpr hp]
  simp [h]

theorem rows_of_isEmpty (m : MemTable) (h : m.isEmpty = true) (sig : UInt8) : m.rows sig = 0 := by
  have he : m.inner.entries = [] := by simpa [MemTable.isEmpty] using h
  simp [MemTable.rows, MemTable.drainSignal, he]

end InfraLens.Storage
