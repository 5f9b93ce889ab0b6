import InfraLens.CompactionFaults

/-! The order of the rows `compact_signal` (compaction.rs) writes. It writes the batches of its
inputs one after the other, so the output is sorted by time only where the inputs, as they are
registered, follow each other in time. -/
namespace InfraLens.Tables

variable {ρ : Type}

def fileRows (d : Dir ρ) (m : SSTableMeta) : List ρ := (d.parquet.lookup m.seq).getD []

section Order
variable (layout : Layout ρ)

/-- Rows in the order of their timestamps; the time of a span is its start. -/
def TimeSorted (rows : List ρ) : Prop :=
  rows.Pairwise fun a b => layout.timestampNs a ≤ layout.timestampNs b

def NotAfter (d : Dir ρ) (m m' : SSTableMeta) : Prop :=
  ∀ a ∈ fileRows d m, ∀ b ∈ fileRows d m', layout.timestampNs a ≤ layout.timestampNs b

theorem timeSorted_read_iff (d : Dir ρ) (inputs : List SSTableMeta)
    (hsorted : ∀ m ∈ inputs, TimeSorted layout (fileRows d m)) :
    TimeSorted layout (d.read inputs) ↔ inputs.Pairwise (NotAfter layout d) := by
  have hread : d.read inputs = inputs.flatMap (fileRows d) := rfl
  rw [TimeSorted, hread, List.pairwise_flatMap]
  exact ⟨fun h => h.2, fun h => ⟨hsorted, h⟩⟩

variable (f : Faults ρ) (s : SignalPartition ρ)

theorem merged_of_ok (h : (compactSignal layout f s).1 = .ok true) :
    ¬ s.sstables.length < 2 ∧ readInputs f s.dir s.sstables ≠ [] ∧
      ∀ p ∈ outputPlan layout s.nextSeq (readInputs f s.dir s.sstables), f.output p.1 = none := by
  by_cases hlen : s.sstables.length < 2
  · rw [compactSignal_few layout f s hlen] at h
    cases h
  · by_cases hread : readInputs f s.dir s.sstables = []
    · rw [compactSignal_unread layout f s hlen hread] at h
      cases h
    · refine ⟨hlen, hread, ?_⟩
      by_contra hsteps
      obtain ⟨d, hd⟩ := compactSignal_failed layout f s hlen hread hsteps
      rw [hd] at h
      cases h

theorem merged_file (hfresh : ∀ m ∈ s.sstables, m.seq < s.nextSeq) (hread : AllRead f s)
    (h : (compactSignal layout f s).1 = .ok true) :
    ∃ out, (compactSignal layout f s).2.sstables = [out] ∧
      (compactSignal layout f s).2.dir.parquet.lookup out.seq = some (s.dir.read s.sstables) := by
  obtain ⟨hlen, hne, hsteps⟩ := merged_of_ok layout f s h
  have hkept : ∀ m ∈ s.sstables, m.seq = s.nextSeq → f.removal (.removeParquet m.seq) = true := by
    intro m hm heq
    exact absurd (hfresh m hm) (by omega)
  rw [compactSignal_merged layout f s hlen hne hsteps]
  refine ⟨_, rfl, ?_⟩
  change (deleteFiles f (outputDir layout f s) s.sstables).parquet.lookup s.nextSeq = _
  rw [lookup_deleteFiles_kept f _ _ _ hkept, lookup_outputDir, (readInputs_eq_iff f s).mpr hread]

/-- The table after a merge has the rows of the inputs, sorted by time. -/
def SortedMerge : Prop :=
  ∃ out rows, (compactSignal layout f s).2.sstables = [out] ∧
    (compactSignal layout f s).2.dir.parquet.lookup out.seq = some rows ∧
    rows.Perm (s.dir.read s.sstables) ∧ TimeSorted layout rows

/-- A merge of sorted inputs that are all read is sorted exactly when the inputs follow each other
in time in the order of their registration. -/
theorem compaction_sorted_iff (hfresh : ∀ m ∈ s.sstables, m.seq < s.nextSeq) (hread : AllRead f s)
    (hmerged : (compactSignal layout f s).1 = .ok true)
    (hsorted : ∀ m ∈ s.sstables, TimeSorted layout (fileRows s.dir m)) :
    SortedMerge layout f s ↔ s.sstables.Pairwise (NotAfter layout s.dir) := by
  obtain ⟨out, hout, hfile⟩ := merged_file layout f s hfresh hread hmerged
  rw [← timeSorted_read_iff layout s.dir s.sstables hsorted]
  constructor
  · rintro ⟨out', rows, hout', hrows, _, htimes⟩
    rw [hout] at hout'
    cases hout'
    rw [hfile] at hrows
    cases hrows
    exact htimes
  · intro htimes
    exact ⟨out, _, hout, hfile, List.Perm.refl _, htimes⟩

end Order

def secondTable (ts : UInt64) : SignalPartition UInt64 :=
  ((SignalPartition.open Dir.empty).flush bareLayout [1, 4]).flush bareLayout [ts]

theorem sstables_secondTable (ts : UInt64) :
    (secondTable ts).sstables =
      [⟨1, bareLayout.zoneMap [1, 4]⟩, ⟨2, bareLayout.zoneMap [ts]⟩] := rfl

theorem sorted_secondTable (ts : UInt64) :
    ∀ m ∈ (secondTable ts).sstables, TimeSorted bareLayout (fileRows (secondTable ts).dir m) := by
  rw [sstables_secondTable, List.forall_mem_cons, List.forall_mem_singleton]
  refine ⟨?_, ?_⟩
  · change [1, 4].Pairwise fun a b : UInt64 => a ≤ b
    decide
  · change [ts].Pairwise fun a b : UInt64 => a ≤ b
    exact List.pairwise_singleton _ _

theorem compaction_sorted_later : SortedMerge bareLayout Faults.none (secondTable 5) := by
  refine (compaction_sorted_iff bareLayout Faults.none (secondTable 5) (by decide) ?_ (by decide)
    (sorted_secondTable 5)).mpr ?_
  · intro m hm rows hrows hne
    exact ⟨rfl, fun _ _ => rfl⟩
  · rw [sstables_secondTable, List.pairwise_pair]
    change ∀ a ∈ [1, 4], ∀ b ∈ [5], (a : UInt64) ≤ b
    simp

/-- Row 2 comes after row 4 in the output, though each input was sorted. -/
theorem compaction_unsorted :
    (∀ m ∈ (secondTable 2).sstables, TimeSorted bareLayout (fileRows (secondTable 2).dir m)) ∧
    (compactSignal bareLayout Faults.none (secondTable 2)).1 = .ok true ∧
    (compactSignal bareLayout Faults.none (secondTable 2)).2.dir.parquet.lookup 3 =
      some [1, 4, 2] :=
  ⟨sorted_secondTable 2, by decide, by decide⟩

end InfraLens.Tables
