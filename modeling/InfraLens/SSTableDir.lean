import InfraLens.LibMap
import Mathlib.Data.Multiset.AddSub
import Mathlib.Data.List.Sort

/-! The files of one signal of one partition and the table of what is registered
(sstable.rs, partition.rs, compaction.rs), down to the single file-system step. -/
namespace InfraLens.Tables

variable {ρ : Type}

structure ZoneMap where
  minTimestampNs : UInt64
  maxTimestampNs : UInt64
  rowCount : Nat
  deriving DecidableEq

def ZoneMap.new : ZoneMap := ⟨0xFFFFFFFFFFFFFFFF, 0, 0⟩

def ZoneMap.observeTimestamp (zm : ZoneMap) (ts : UInt64) : ZoneMap where
  minTimestampNs := if ts < zm.minTimestampNs then ts else zm.minTimestampNs
  maxTimestampNs := if ts > zm.maxTimestampNs then ts else zm.maxTimestampNs
  rowCount := zm.rowCount + 1

/-- What the table writers take from a row, and the bytes of the bloom files: of a flush,
and of a compaction with so many rows. -/
structure Layout (ρ : Type) where
  timestampNs : ρ → UInt64
  bloom : List ρ → List UInt8
  mergedBloom : Nat → List UInt8

def Layout.zoneMap (layout : Layout ρ) (rows : List ρ) : ZoneMap :=
  rows.foldl (fun zm r => zm.observeTimestamp (layout.timestampNs r)) ZoneMap.new

def bareLayout : Layout UInt64 := ⟨id, fun _ => [], fun _ => []⟩

/-- The files by sequence number; a parquet file is known by its rows. -/
structure Dir (ρ : Type) where
  parquet : AList (fun _ : Nat => List ρ)
  bloom : AList (fun _ : Nat => List UInt8)
  zonemap : AList (fun _ : Nat => ZoneMap)

def Dir.empty : Dir ρ := ⟨∅, ∅, ∅⟩

inductive FsStep (ρ : Type) where
  | writeParquet (seq : Nat) (rows : List ρ)
  | sync (seq : Nat)
  | writeBloom (seq : Nat) (bytes : List UInt8)
  | writeZonemap (seq : Nat) (zm : ZoneMap)
  | removeParquet (seq : Nat)
  | removeBloom (seq : Nat)
  | removeZonemap (seq : Nat)

def Dir.apply (d : Dir ρ) : FsStep ρ → Dir ρ
  | .writeParquet seq rows => { d with parquet := d.parquet.insert seq rows }
  | .sync _ => d
  | .writeBloom seq bytes => { d with bloom := d.bloom.insert seq bytes }
  | .writeZonemap seq zm => { d with zonemap := d.zonemap.insert seq zm }
  | .removeParquet seq => { d with parquet := d.parquet.erase seq }
  | .removeBloom seq => { d with bloom := d.bloom.erase seq }
  | .removeZonemap seq => { d with zonemap := d.zonemap.erase seq }

structure SSTableMeta where
  seq : Nat
  zoneMap : ZoneMap
  deriving DecidableEq

/-- The counter is an `AtomicU64` in the code; a natural number stands for one that fewer than
2^64 numbers are taken from. -/
structure SignalPartition (ρ : Type) where
  dir : Dir ρ
  sstables : List SSTableMeta
  nextSeq : Nat

/-- `SignalPartition::open`: one SSTable for every `.zonemap` file, in order of number. -/
def SignalPartition.open (d : Dir ρ) : SignalPartition ρ where
  dir := d
  sstables := (d.zonemap.entries.map fun e => ⟨e.1, e.2⟩).insertionSort fun a b => a.seq ≤ b.seq
  nextSeq := (d.zonemap.keys.foldl max 0) + 1

/-- The writes of `write_logs`, `write_metrics` and `write_spans`. -/
def flushSteps (layout : Layout ρ) (seq : Nat) (rows : List ρ) : List (FsStep ρ) :=
  [.writeParquet seq rows, .writeBloom seq (layout.bloom rows),
    .writeZonemap seq (layout.zoneMap rows)]

/-- A completed flush: number, files, registration. -/
def SignalPartition.flush (layout : Layout ρ) (s : SignalPartition ρ) (rows : List ρ) :
    SignalPartition ρ where
  dir := (flushSteps layout s.nextSeq rows).foldl Dir.apply s.dir
  sstables := s.sstables ++ [⟨s.nextSeq, layout.zoneMap rows⟩]
  nextSeq := s.nextSeq + 1

/-- The rows `compact_signal` reads: an input whose file is gone is skipped. -/
def Dir.read (d : Dir ρ) (inputs : List SSTableMeta) : List ρ :=
  inputs.flatMap fun m => (d.parquet.lookup m.seq).getD []

/-- The output files of a compaction; nothing is inserted into its bloom filter. -/
def outputSteps (layout : Layout ρ) (seq : Nat) (rows : List ρ) : List (FsStep ρ) :=
  [.writeParquet seq rows, .sync seq, .writeBloom seq (layout.mergedBloom (max rows.length 1)),
    .writeZonemap seq (layout.zoneMap rows)]

def removeSteps (m : SSTableMeta) : List (FsStep ρ) :=
  [.removeParquet m.seq, .removeBloom m.seq, .removeZonemap m.seq]

def deleteSteps (inputs : List SSTableMeta) : List (FsStep ρ) := inputs.flatMap removeSteps

/-- The file-system steps of `compact_signal` with its inputs and output number. -/
def compactSteps (layout : Layout ρ) (d : Dir ρ) (inputs : List SSTableMeta) (out : Nat) :
    List (FsStep ρ) :=
  if (d.read inputs).isEmpty then deleteSteps inputs
  else outputSteps layout out (d.read inputs) ++ deleteSteps inputs

/-- A completed `compact_signal`. -/
def SignalPartition.compact (layout : Layout ρ) (s : SignalPartition ρ) : SignalPartition ρ :=
  if s.sstables.length < 2 then s
  else
    { dir := (compactSteps layout s.dir s.sstables s.nextSeq).foldl Dir.apply s.dir
      sstables := if (s.dir.read s.sstables).isEmpty then []
        else [⟨s.nextSeq, layout.zoneMap (s.dir.read s.sstables)⟩]
      nextSeq := s.nextSeq + 1 }

def SignalPartition.rows (s : SignalPartition ρ) : Multiset ρ :=
  (s.dir.read s.sstables : List ρ)

/-! ### What a directory holds -/

/-- The tables of the directory: one for each number in `seqs`, with these rows. -/
structure Holds (d : Dir ρ) (seqs : List Nat) (rows : Nat → List ρ) : Prop where
  keys : d.zonemap.keys.Perm seqs
  parquet : ∀ n ∈ seqs, d.parquet.lookup n = some (rows n)

theorem open_seqs (d : Dir ρ) :
    ((SignalPartition.open d).sstables.map SSTableMeta.seq).Perm d.zonemap.keys := by
  have hp := (List.perm_insertionSort (fun a b : SSTableMeta => a.seq ≤ b.seq)
    (d.zonemap.entries.map fun e => ⟨e.1, e.2⟩)).map SSTableMeta.seq
  rw [List.map_map] at hp
  exact hp

theorem le_foldl_max (l : List Nat) (b n : Nat) (h : n ≤ b ∨ n ∈ l) : n ≤ l.foldl max b := by
  induction l generalizing b with
  | nil => simpa using h
  | cons a l ih =>
    rw [List.foldl_cons]
    apply ih
    cases h with
    | inl hb => exact Or.inl (le_trans hb (le_max_left b a))
    | inr hm =>
      cases List.mem_cons.mp hm with
      | inl he => exact Or.inl (he ▸ le_max_right b a)
      | inr ht => exact Or.inr ht

theorem open_nextSeq (d : Dir ρ) (n : Nat) (h : n ∈ d.zonemap.keys) :
    n < (SignalPartition.open d).nextSeq :=
  Nat.lt_succ_of_le (le_foldl_max d.zonemap.keys 0 n (Or.inr h))

theorem read_of_parquet (d : Dir ρ) (metas : List SSTableMeta) (rows : Nat → List ρ)
    (h : ∀ n ∈ metas.map SSTableMeta.seq, d.parquet.lookup n = some (rows n)) :
    d.read metas = (metas.map SSTableMeta.seq).flatMap rows := by
  induction metas with
  | nil => rfl
  | cons m metas ih =>
    have hm := h m.seq (by simp)
    have hrest := ih fun n hn => h n (List.mem_cons_of_mem m.seq hn)
    simp only [Dir.read, List.flatMap_cons, List.map_cons, hm, Option.getD_some]
    exact congrArg _ hrest

theorem open_rows (d : Dir ρ) (seqs : List Nat) (rows : Nat → List ρ) (h : Holds d seqs rows) :
    (SignalPartition.open d).rows = (seqs.flatMap rows : List ρ) := by
  have hp := (open_seqs d).trans h.keys
  have hread := read_of_parquet d (SignalPartition.open d).sstables rows
    (fun n hn => h.parquet n (hp.mem_iff.mp hn))
  change ((d.read (SignalPartition.open d).sstables : List ρ) : Multiset ρ) = _
  rw [hread]
  exact Multiset.coe_eq_coe.mpr (hp.flatMap_right rows)

theorem holds_nodup (d : Dir ρ) (seqs : List Nat) (rows : Nat → List ρ) (h : Holds d seqs rows) :
    seqs.Nodup := h.keys.nodup_iff.mp d.zonemap.keys_nodup

section Steps
variable (d : Dir ρ) (seqs : List Nat) (rows : Nat → List ρ)

theorem holds_writeParquet (h : Holds d seqs rows) (n : Nat) (out : List ρ) (hn : n ∉ seqs) :
    Holds (d.apply (.writeParquet n out)) seqs rows := by
  refine ⟨h.keys, ?_⟩
  intro m hm
  have hne : m ≠ n := fun he => hn (he ▸ hm)
  rw [Dir.apply, AList.lookup_insert_ne hne]
  exact h.parquet m hm

theorem holds_writeZonemap (h : Holds d seqs rows) (n : Nat) (out : List ρ) (zm : ZoneMap)
    (hn : n ∉ seqs) (hout : d.parquet.lookup n = some out) :
    Holds (d.apply (.writeZonemap n zm)) (n :: seqs) (Function.update rows n out) := by
  refine ⟨?_, ?_⟩
  · have hk : n ∉ d.zonemap := fun hm => hn (h.keys.mem_iff.mp (AList.mem_keys.mpr hm))
    rw [Dir.apply, AList.keys_insert, List.erase_of_not_mem (fun hm => hk (AList.mem_keys.mp hm))]
    exact h.keys.cons n
  · intro m hm
    by_cases he : m = n
    · subst he
      rw [Function.update_self]
      exact hout
    · rw [Function.update_of_ne he]
      exact h.parquet m ((List.mem_cons.mp hm).resolve_left he)

end Steps

end InfraLens.Tables
