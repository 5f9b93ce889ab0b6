import InfraLens.Upkeep
import InfraLens.Signals

/-! The bloom files of registered tables over whole runs. A flush inserts the key of every
row; a compaction writes a filter into which nothing was inserted. -/
namespace InfraLens.Tables
open Model Rows Bloom LibRun Schema

section Files
variable (sip : List UInt8 → UInt64 → UInt64) (sizing : Sizing) (sig : SignalType)

/-- The filter in a table's bloom file contains the key of every row of the table. -/
def NoFalseNegative (s : SignalPartition (SignalRow sig)) : Prop :=
  ∀ m ∈ s.sstables, ∀ rows, s.dir.parquet.lookup m.seq = some rows → ∀ r ∈ rows,
    ∃ bytes f, s.dir.bloom.lookup m.seq = some bytes ∧ fromBytes bytes = .ok (some f) ∧
      f.contains sip (bloomKey sig r) = .ok true

def Written (rows : List (SignalRow sig)) (bytes : List UInt8) : Prop :=
  rows.length < 2 ^ 60 ∧ bytes = bloomFile sip sizing (rows.map (bloomKey sig))

/-- A flush has fewer than 2^60 rows, as every slice of records. -/
def FitsSlice : Upkeep (SignalRow sig) → Prop
  | .op (.flush rows) => rows.length < 2 ^ 60
  | _ => True

instance : (a : Upkeep (SignalRow sig)) → Decidable (FitsSlice sig a)
  | .op (.flush rows) => inferInstanceAs (Decidable (rows.length < 2 ^ 60))
  | .op .compact | .reopen => .isTrue trivial

theorem noFalseNegative_of_kept (s : SignalPartition (SignalRow sig))
    (hs : Kept (signalLayout sip sizing sig) (Written sip sizing sig) s) :
    NoFalseNegative sip sig s := by
  intro m hm rows hrows r hr
  obtain ⟨held, bytes, hfiles, _, hlen, hwritten⟩ := hs.files m hm
  have hheld : held = rows := by
    have hp : s.dir.parquet.lookup m.seq = some held := congrArg (·.1) hfiles
    rw [hrows] at hp
    exact (Option.some.inj hp).symm
  have hbloom : s.dir.bloom.lookup m.seq = some bytes := congrArg (·.2.1) hfiles
  obtain ⟨f, hf, hkeys⟩ :=
    bloomFile_contains sip sizing (held.map (bloomKey sig)) (by rwa [List.length_map])
  refine ⟨bytes, f, hbloom, hwritten ▸ hf, hkeys _ ?_⟩
  exact List.mem_map_of_mem (hheld ▸ hr)

/-- A registered table with rows whose filter is empty. -/
def Merged (s : SignalPartition (SignalRow sig)) : Prop :=
  ∃ m ∈ s.sstables, ∃ r rows n zm,
    s.dir.files m.seq = (some (r :: rows), some (BloomFilter.new sizing n).toBytes, zm)

theorem not_noFalseNegative_of_merged (s : SignalPartition (SignalRow sig))
    (hs : Merged sizing sig s) : ¬ NoFalseNegative sip sig s := by
  obtain ⟨m, hm, r, rows, n, zm, hfiles⟩ := hs
  intro h
  obtain ⟨bytes, f, hbytes, hf, hcontains⟩ :=
    h m hm (r :: rows) (congrArg (·.1) hfiles) r List.mem_cons_self
  have hnew : s.dir.bloom.lookup m.seq = some (BloomFilter.new sizing n).toBytes :=
    congrArg (·.2.1) hfiles
  rw [hbytes] at hnew
  rw [Option.some.inj hnew] at hf
  rw [fromBytes_new sip sizing n f _ hf] at hcontains
  cases hcontains

theorem read_ne_nil (s : SignalPartition (SignalRow sig)) (hs : Merged sizing sig s) :
    s.dir.read s.sstables ≠ [] := by
  obtain ⟨m, hm, r, rows, n, zm, hfiles⟩ := hs
  have hp : s.dir.parquet.lookup m.seq = some (r :: rows) := congrArg (·.1) hfiles
  have hr : r ∈ s.dir.read s.sstables := by
    refine List.mem_flatMap.mpr ⟨m, hm, ?_⟩
    rw [hp]
    exact List.mem_cons_self
  exact List.ne_nil_of_mem hr

theorem merged_of_merges (s : SignalPartition (SignalRow sig)) (hs : ∃ rows, Sound s rows)
    (h : Merges s (.op .compact)) :
    Merged sizing sig (s.compact (signalLayout sip sizing sig)) := by
  obtain ⟨hreg, hfiles⟩ := compact_merged (signalLayout sip sizing sig) s h hs
  obtain ⟨r, rows, hread⟩ := List.exists_cons_of_ne_nil h.2
  rw [hread] at hreg hfiles
  exact ⟨_, hreg ▸ List.mem_singleton_self _, r, rows, _, _, hfiles⟩

theorem merged_upkeep (s t : SignalPartition (SignalRow sig))
    (a : Upkeep (SignalRow sig))
    (hkept : Kept (signalLayout sip sizing sig) (fun _ _ => True) s)
    (hs : Merged sizing sig s) (h : upkeep (signalLayout sip sizing sig) s a = some t) :
    Merged sizing sig t := by
  obtain ⟨m, hm, r, rows, n, zm, hfiles⟩ := hs
  cases a with
  | reopen =>
    cases Option.some.inj h
    exact ⟨m, (mem_reopen _ _ s hkept m).mpr hm, r, rows, n, zm, hfiles⟩
  | op o =>
    cases Option.some.inj h
    cases o with
    | flush new =>
      refine ⟨m, List.mem_append_left _ hm, r, rows, n, zm, ?_⟩
      exact (files_flush_other (signalLayout sip sizing sig) s m hkept.sound hm new).trans hfiles
    | compact =>
      by_cases hlen : s.sstables.length < 2
      · have hskip : s.compact (signalLayout sip sizing sig) = s := if_pos hlen
        rw [Op.complete, hskip]
        exact ⟨m, hm, r, rows, n, zm, hfiles⟩
      · exact merged_of_merges sip sizing sig s hkept.sound
          ⟨Nat.not_lt.mp hlen, read_ne_nil sizing sig s ⟨m, hm, r, rows, n, zm, hfiles⟩⟩

theorem merged_of_merging_step (s t : SignalPartition (SignalRow sig))
    (a : Upkeep (SignalRow sig)) (hs : ∃ rows, Sound s rows) (hmerge : Merges s a)
    (h : upkeep (signalLayout sip sizing sig) s a = some t) : Merged sizing sig t := by
  cases a with
  | reopen => exact hmerge.elim
  | op o =>
    cases o with
    | flush rows => exact hmerge.elim
    | compact =>
      cases Option.some.inj h
      exact merged_of_merges sip sizing sig s hs hmerge

theorem along_of_noFalseNegative (acts : List (Upkeep (SignalRow sig)))
    (s t : SignalPartition (SignalRow sig))
    (hkept : Kept (signalLayout sip sizing sig) (fun _ _ => True) s)
    (hrun : run (upkeep (signalLayout sip sizing sig)) s acts = some t)
    (h : NoFalseNegative sip sig t) :
    Along (upkeep (signalLayout sip sizing sig)) (fun s a => ¬ Merges s a) s acts := by
  induction acts generalizing s with
  | nil => trivial
  | cons a acts ih =>
    obtain ⟨u, hu, hrest⟩ := run_cons _ s a acts t hrun
    have hku : Kept (signalLayout sip sizing sig) (fun _ _ => True) u :=
      kept_upkeep _ _ s a u hkept (fun _ _ => trivial) (fun _ => trivial) hu
    refine ⟨?_, ?_⟩
    · intro hmerge
      have hm := merged_of_merging_step sip sizing sig s u a hkept.sound hmerge hu
      have ht := run_invariant _ (fun _ _ => True)
        (fun s => Kept (signalLayout sip sizing sig) (fun _ _ => True) s ∧ Merged sizing sig s)
        (fun s a t hs _ hstep => ⟨kept_upkeep _ _ s a t hs.1 (fun _ _ => trivial)
          (fun _ => trivial) hstep, merged_upkeep sip sizing sig s t a hs.1 hs.2 hstep⟩)
        acts u t ⟨hku, hm⟩ (along_true _ u acts) hrest
      exact not_noFalseNegative_of_merged sip sizing sig t ht.2 h
    · intro v hv
      rw [hu] at hv
      cases hv
      exact ih u hku hrest

/-- Every run of flushes, compactions and reopenings completes, and no bloom file has a
false negative at its end exactly when none of its compactions wrote an output. -/
theorem no_false_negatives (acts : List (Upkeep (SignalRow sig)))
    (hfits : ∀ a ∈ acts, FitsSlice sig a) :
    ∃ t, run (upkeep (signalLayout sip sizing sig)) (SignalPartition.open Dir.empty) acts =
        some t ∧
      (NoFalseNegative sip sig t ↔ Along (upkeep (signalLayout sip sizing sig))
        (fun s a => ¬ Merges s a) (SignalPartition.open Dir.empty) acts) := by
  obtain ⟨t, ht⟩ := upkeep_runs (signalLayout sip sizing sig)
    (SignalPartition.open Dir.empty) acts
  refine ⟨t, ht, ?_, ?_⟩
  · intro h
    exact along_of_noFalseNegative sip sizing sig acts _ t (kept_empty _ _) ht h
  · intro hok
    apply noFalseNegative_of_kept sip sizing sig
    exact run_invariant _ _ (Kept (signalLayout sip sizing sig) (Written sip sizing sig))
      (fun s a t hs hno hstep => kept_upkeep _ _ s a t hs
        (fun rows hflush => ⟨by simpa [hflush, FitsSlice] using hno.2, rfl⟩)
        (fun hmerge => absurd hmerge hno.1) hstep)
      acts _ t (kept_empty _ _) (along_and_forall _ _ _ acts hfits _ hok) ht

end Files

def smallSizing : Sizing := ⟨fun _ => 64, fun _ _ => 1, fun _ _ => by decide⟩

def plainRow : SignalRow .log :=
  logRow ⟨fun _ => none, fun _ => none, fun _ => none, fun _ => none⟩ (.bare 7 none)

/-- Two flushes, and between them a restart and a compaction that finds one table. -/
def flushedApart : List (Upkeep (SignalRow .log)) :=
  [.op (.flush [plainRow, plainRow]), .reopen, .op .compact, .op (.flush [plainRow])]

theorem no_false_negatives_flushedApart :
    ∃ t, run (upkeep (signalLayout (fun _ _ => 0) smallSizing .log))
        (SignalPartition.open Dir.empty) flushedApart = some t ∧
      t.sstables.map SSTableMeta.seq = [1, 2] ∧ NoFalseNegative (fun _ _ => 0) .log t := by
  obtain ⟨t, ht, hiff⟩ :=
    no_false_negatives (fun _ _ => 0) smallSizing .log flushedApart (by decide)
  cases ht
  exact ⟨_, rfl, rfl, hiff.mpr (by decide)⟩

/-- Two flushes of one row and a compaction: the merged table's filter lacks both rows. -/
theorem compaction_loses_keys :
    ∃ t, run (upkeep (signalLayout (fun _ _ => 0) smallSizing .log))
        (SignalPartition.open Dir.empty)
        [.op (.flush [plainRow]), .op (.flush [plainRow]), .op .compact] = some t ∧
      t.sstables.map SSTableMeta.seq = [3] ∧
      t.dir.parquet.lookup 3 = some [plainRow, plainRow] ∧
      ¬ NoFalseNegative (fun _ _ => 0) .log t := by
  refine ⟨_, rfl, rfl, rfl, ?_⟩
  apply not_noFalseNegative_of_merged (fun _ _ => 0) smallSizing
  exact ⟨_, List.mem_cons_self, plainRow, [plainRow], 2, _, rfl⟩

end InfraLens.Tables
