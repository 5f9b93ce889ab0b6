import InfraLens.CrashConsistency

/-! The life of one signal's tables without crashes: flushes, compactions and reopenings.
What each registered table's three files hold is kept along every such run. -/
namespace InfraLens.Tables
open LibRun

variable {ρ : Type}

inductive Upkeep (ρ : Type) where
  | op (o : Op ρ)
  | reopen

def upkeep (layout : Layout ρ) (s : SignalPartition ρ) : Upkeep ρ → Option (SignalPartition ρ)
  | .op o => some (o.complete layout s)
  | .reopen => some (SignalPartition.open s.dir)

theorem upkeep_runs (layout : Layout ρ) (s : SignalPartition ρ) (acts : List (Upkeep ρ)) :
    ∃ t, run (upkeep layout) s acts = some t := by
  induction acts generalizing s with
  | nil => exact ⟨s, rfl⟩
  | cons a acts ih =>
    cases a with
    | op o => exact ih (o.complete layout s)
    | reopen => exact ih (SignalPartition.open s.dir)

def Merges (s : SignalPartition ρ) : Upkeep ρ → Prop
  | .op .compact => 2 ≤ s.sstables.length ∧ s.dir.read s.sstables ≠ []
  | _ => False

instance (s : SignalPartition ρ) : (a : Upkeep ρ) → Decidable (Merges s a)
  | .op .compact => inferInstanceAs (Decidable (_ ∧ _ ≠ []))
  | .op (.flush _) | .reopen => .isFalse id

/-! ### The files of one number -/

/-- The contents of the parquet, bloom and zonemap file of a number. -/
def Dir.files (d : Dir ρ) (n : Nat) : Option (List ρ) × Option (List UInt8) × Option ZoneMap :=
  (d.parquet.lookup n, d.bloom.lookup n, d.zonemap.lookup n)

def FsStep.seq : FsStep ρ → Nat
  | .writeParquet n _ => n
  | .sync n => n
  | .writeBloom n _ => n
  | .writeZonemap n _ => n
  | .removeParquet n => n
  | .removeBloom n => n
  | .removeZonemap n => n

theorem files_apply (d : Dir ρ) (st : FsStep ρ) (n : Nat) (h : n ≠ st.seq) :
    (d.apply st).files n = d.files n := by
  cases st with
  | sync => rfl
  | writeParquet m rows =>
    simp only [Dir.files, Dir.apply, AList.lookup_insert_ne (show n ≠ m from h)]
  | writeBloom m bytes =>
    simp only [Dir.files, Dir.apply, AList.lookup_insert_ne (show n ≠ m from h)]
  | writeZonemap m zm =>
    simp only [Dir.files, Dir.apply, AList.lookup_insert_ne (show n ≠ m from h)]
  | removeParquet m => simp only [Dir.files, Dir.apply, AList.lookup_erase_ne (show n ≠ m from h)]
  | removeBloom m => simp only [Dir.files, Dir.apply, AList.lookup_erase_ne (show n ≠ m from h)]
  | removeZonemap m => simp only [Dir.files, Dir.apply, AList.lookup_erase_ne (show n ≠ m from h)]

theorem files_foldl (steps : List (FsStep ρ)) (d : Dir ρ) (n : Nat)
    (h : ∀ st ∈ steps, n ≠ st.seq) : (steps.foldl Dir.apply d).files n = d.files n := by
  induction steps generalizing d with
  | nil => rfl
  | cons st steps ih =>
    rw [List.foldl_cons, ih _ fun st' hst => h st' (List.mem_cons_of_mem st hst),
      files_apply d st n (h st List.mem_cons_self)]

theorem files_deleteSteps (inputs : List SSTableMeta) (d : Dir ρ) (n : Nat)
    (h : n ∉ inputs.map SSTableMeta.seq) :
    ((deleteSteps inputs).foldl Dir.apply d).files n = d.files n := by
  apply files_foldl
  intro st hst he
  obtain ⟨m, hm, hin⟩ := List.mem_flatMap.mp hst
  have hseq : st.seq = m.seq := by
    simp only [removeSteps, List.mem_cons, List.not_mem_nil, or_false] at hin
    obtain rfl | rfl | rfl := hin <;> rfl
  exact h (he.trans hseq ▸ List.mem_map_of_mem hm)

theorem mem_open (d : Dir ρ) (m : SSTableMeta) :
    m ∈ (SignalPartition.open d).sstables ↔ d.zonemap.lookup m.seq = some m.zoneMap := by
  rw [← Option.mem_def, AList.mem_lookup_iff]
  simp only [SignalPartition.open, List.mem_insertionSort, List.mem_map]
  constructor
  · rintro ⟨e, he, rfl⟩
    exact he
  · intro h
    exact ⟨_, h, rfl⟩

/-! ### What is kept -/

section Kept
variable (layout : Layout ρ) (good : List ρ → List UInt8 → Prop)

/-- The three files of a table: its rows, a bloom file that is good for them, and the zone
map made from them, which is also the registered one. -/
def TableFiles (d : Dir ρ) (m : SSTableMeta) : Prop :=
  ∃ rows bytes, d.files m.seq = (some rows, some bytes, some m.zoneMap) ∧
    m.zoneMap = layout.zoneMap rows ∧ good rows bytes

structure Kept (s : SignalPartition ρ) : Prop where
  sound : ∃ rows, Sound s rows
  files : ∀ m ∈ s.sstables, TableFiles layout good s.dir m

variable (s : SignalPartition ρ)

omit layout good in
theorem fresh_of_sound (hs : ∃ rows, Sound s rows) :
    s.nextSeq ∉ s.sstables.map SSTableMeta.seq := by
  obtain ⟨rows, h⟩ := hs
  exact next_fresh s rows h

theorem tableFiles_congr (d d' : Dir ρ) (m : SSTableMeta) (h : d'.files m.seq = d.files m.seq)
    (hm : TableFiles layout good d m) : TableFiles layout good d' m := by
  obtain ⟨rows, bytes, hfiles, hrest⟩ := hm
  exact ⟨rows, bytes, h.trans hfiles, hrest⟩

omit good in
theorem files_flush_other (m : SSTableMeta) (hs : ∃ rows, Sound s rows) (hm : m ∈ s.sstables)
    (rows : List ρ) : (s.flush layout rows).dir.files m.seq = s.dir.files m.seq := by
  apply files_foldl
  intro st hst he
  have hseq : st.seq = s.nextSeq := by
    simp only [flushSteps, List.mem_cons, List.not_mem_nil, or_false] at hst
    obtain rfl | rfl | rfl := hst <;> rfl
  exact fresh_of_sound s hs (he.trans hseq ▸ List.mem_map_of_mem hm)

theorem kept_flush (hs : Kept layout good s) (rows : List ρ)
    (hgood : good rows (layout.bloom rows)) : Kept layout good (s.flush layout rows) := by
  refine ⟨?_, ?_⟩
  · obtain ⟨held, h⟩ := hs.sound
    exact ⟨_, sound_flush layout s held h rows⟩
  · intro m hm
    cases List.mem_append.mp hm with
    | inl hold =>
      exact tableFiles_congr layout good s.dir _ m
        (files_flush_other layout s m hs.sound hold rows) (hs.files m hold)
    | inr hnew =>
      rw [List.mem_singleton.mp hnew]
      refine ⟨rows, layout.bloom rows, ?_, rfl, hgood⟩
      simp only [Dir.files, SignalPartition.flush, flushSteps, List.foldl_cons, List.foldl_nil,
        Dir.apply, AList.lookup_insert]

theorem compact_merged (h : Merges s (.op .compact)) (hs : ∃ rows, Sound s rows) :
    (s.compact layout).sstables =
        [⟨s.nextSeq, layout.zoneMap (s.dir.read s.sstables)⟩] ∧
      (s.compact layout).dir.files s.nextSeq =
        (some (s.dir.read s.sstables),
          some (layout.mergedBloom (max (s.dir.read s.sstables).length 1)),
          some (layout.zoneMap (s.dir.read s.sstables))) := by
  obtain ⟨hlen, hrows⟩ := h
  have hne : ¬ (s.dir.read s.sstables).isEmpty := by simpa using hrows
  simp only [SignalPartition.compact, if_neg (Nat.not_lt.mpr hlen), if_neg hne, compactSteps,
    List.foldl_append]
  refine ⟨trivial, ?_⟩
  rw [files_deleteSteps s.sstables _ _ (fresh_of_sound s hs)]
  simp only [Dir.files, outputSteps, List.foldl_cons, List.foldl_nil, Dir.apply,
    AList.lookup_insert]

theorem compact_unmerged (h : ¬ Merges s (.op .compact)) :
    s.compact layout = s ∨ (s.compact layout).sstables = [] := by
  by_cases hlen : s.sstables.length < 2
  · exact Or.inl (if_pos hlen)
  · have hread : s.dir.read s.sstables = [] := by
      by_contra hne
      exact h ⟨Nat.not_lt.mp hlen, hne⟩
    right
    simp [SignalPartition.compact, hlen, hread]

theorem kept_compact (hs : Kept layout good s)
    (hgood : Merges s (.op .compact) → good (s.dir.read s.sstables)
      (layout.mergedBloom (max (s.dir.read s.sstables).length 1))) :
    Kept layout good (s.compact layout) := by
  refine ⟨?_, ?_⟩
  · obtain ⟨held, h⟩ := hs.sound
    exact (compact_complete layout s held h).1
  · intro m hm
    by_cases hmerge : Merges s (.op .compact)
    · obtain ⟨hreg, hfiles⟩ := compact_merged layout s hmerge hs.sound
      rw [hreg, List.mem_singleton] at hm
      subst hm
      exact ⟨_, _, hfiles, rfl, hgood hmerge⟩
    · obtain he | he := compact_unmerged layout s hmerge
      · rw [he] at hm ⊢
        exact hs.files m hm
      · rw [he] at hm
        cases hm

theorem mem_reopen (hs : Kept layout good s) (m : SSTableMeta) :
    m ∈ (SignalPartition.open s.dir).sstables ↔ m ∈ s.sstables := by
  obtain ⟨held, hsound⟩ := hs.sound
  rw [mem_open]
  constructor
  · intro h
    have hkey : m.seq ∈ s.dir.zonemap.keys :=
      AList.mem_keys.mp (AList.lookup_isSome.mp (by rw [h]; rfl))
    obtain ⟨m', hm', he⟩ := List.mem_map.mp (hsound.holds.keys.mem_iff.mp hkey)
    obtain ⟨_, _, hfiles, _⟩ := hs.files m' hm'
    have hz : s.dir.zonemap.lookup m'.seq = some m'.zoneMap := congrArg (·.2.2) hfiles
    rw [he, h] at hz
    have heq : m = m' := by
      cases m
      cases m'
      simp only [SSTableMeta.mk.injEq]
      exact ⟨he.symm, Option.some.inj hz⟩
    exact heq ▸ hm'
  · intro h
    obtain ⟨_, _, hfiles, _⟩ := hs.files m h
    exact congrArg (·.2.2) hfiles

theorem kept_open (hs : Kept layout good s) : Kept layout good (SignalPartition.open s.dir) := by
  refine ⟨?_, ?_⟩
  · obtain ⟨held, h⟩ := hs.sound
    exact ⟨held, sound_open s.dir _ held h.holds⟩
  · intro m hm
    exact hs.files m ((mem_reopen layout good s hs m).mp hm)

theorem kept_upkeep (a : Upkeep ρ) (t : SignalPartition ρ) (hs : Kept layout good s)
    (hflush : ∀ rows, a = .op (.flush rows) → good rows (layout.bloom rows))
    (hmerge : Merges s a → good (s.dir.read s.sstables)
      (layout.mergedBloom (max (s.dir.read s.sstables).length 1)))
    (h : upkeep layout s a = some t) : Kept layout good t := by
  cases a with
  | op o =>
    cases Option.some.inj h
    cases o with
    | flush rows => exact kept_flush layout good s hs rows (hflush rows rfl)
    | compact => exact kept_compact layout good s hs hmerge
  | reopen =>
    cases Option.some.inj h
    exact kept_open layout good s hs

theorem kept_empty : Kept layout good (SignalPartition.open (Dir.empty : Dir ρ)) := by
  refine ⟨⟨fun _ => [], ?_⟩, ?_⟩
  · exact sound_open Dir.empty [] _ ⟨List.Perm.refl _, by simp⟩
  · intro m hm
    cases hm

end Kept

end InfraLens.Tables
