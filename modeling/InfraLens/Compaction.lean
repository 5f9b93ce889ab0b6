import InfraLens.SSTableDir

/-! Compaction beside flushes in one signal of one partition (compaction.rs, engine.rs): the
registry and the files change in separate steps, in any order. -/
namespace InfraLens.Tables

variable {ρ : Type}

/-- Where `compact_signal` is: not running, with its inputs drained from the registry, with
its output numbered, writing the output, or deleting the inputs' files. -/
inductive Phase (ρ : Type) where
  | idle
  | drained (inputs : List SSTableMeta)
  | numbered (inputs : List SSTableMeta) (out : Nat)
  | writing (steps : List (FsStep ρ)) (inputs : List SSTableMeta) (out : Nat) (rows : List ρ)
  | deleting (steps : List (FsStep ρ))

def Phase.inputs : Phase ρ → List SSTableMeta
  | .drained inputs => inputs
  | .numbered inputs _ => inputs
  | .writing _ inputs _ _ => inputs
  | _ => []

def Phase.out : Phase ρ → Option Nat
  | .numbered _ out => some out
  | .writing _ _ out _ => some out
  | _ => none

/-- The file-system steps a compaction has still to take to delete its inputs. -/
def Phase.deletes : Phase ρ → List (FsStep ρ)
  | .deleting steps => steps
  | _ => []

/-- One signal of one partition while it is in use: a flush that has written its files and
has still to register them, and the rows of the flushes that have registered. -/
structure Live (ρ : Type) where
  dir : Dir ρ
  sstables : List SSTableMeta
  nextSeq : Nat
  flushing : Option (Nat × List ρ)
  phase : Phase ρ
  flushed : Multiset ρ

def Live.new : Live ρ where
  dir := Dir.empty
  sstables := []
  nextSeq := 1
  flushing := none
  phase := .idle
  flushed := 0

inductive LiveAct (ρ : Type) where
  | flushWrite (rows : List ρ)
  | flushRegister
  | drain
  | number
  | read
  | write
  | register
  | delete
  | finish

def Live.step (layout : Layout ρ) (l : Live ρ) : LiveAct ρ → Option (Live ρ)
  | .flushWrite rows =>
    match l.flushing with
    | none => some { l with
        dir := (flushSteps layout l.nextSeq rows).foldl Dir.apply l.dir
        nextSeq := l.nextSeq + 1
        flushing := some (l.nextSeq, rows) }
    | some _ => none
  | .flushRegister =>
    match l.flushing with
    | some (seq, rows) => some { l with
        sstables := l.sstables ++ [⟨seq, layout.zoneMap rows⟩]
        flushing := none
        flushed := l.flushed + rows }
    | none => none
  | .drain =>
    match l.phase with
    | .idle =>
      if l.sstables.length < 2 then none
      else some { l with
        sstables := []
        phase := .drained l.sstables }
    | _ => none
  | .number =>
    match l.phase with
    | .drained inputs => some { l with
        nextSeq := l.nextSeq + 1
        phase := .numbered inputs l.nextSeq }
    | _ => none
  | .read =>
    match l.phase with
    | .numbered inputs out =>
      if (l.dir.read inputs).isEmpty then
        some { l with phase := .deleting (deleteSteps inputs) }
      else
        some { l with
          phase := .writing (outputSteps layout out (l.dir.read inputs)) inputs out
            (l.dir.read inputs) }
    | _ => none
  | .write =>
    match l.phase with
    | .writing (st :: steps) inputs out rows =>
      some { l with dir := l.dir.apply st, phase := .writing steps inputs out rows }
    | _ => none
  | .register =>
    match l.phase with
    | .writing [] inputs out rows => some { l with
        sstables := l.sstables ++ [⟨out, layout.zoneMap rows⟩]
        phase := .deleting (deleteSteps inputs) }
    | _ => none
  | .delete =>
    match l.phase with
    | .deleting (st :: steps) =>
      some { l with dir := l.dir.apply st, phase := .deleting steps }
    | _ => none
  | .finish =>
    match l.phase with
    | .deleting [] => some { l with phase := .idle }
    | _ => none

/-! ### One table -/

/-- What each step needs and does. -/
inductive LiveStepped (layout : Layout ρ) (l : Live ρ) : LiveAct ρ → Live ρ → Prop where
  | flushWrite (rows : List ρ) : LiveStepped layout l (.flushWrite rows) { l with
      dir := (flushSteps layout l.nextSeq rows).foldl Dir.apply l.dir
      nextSeq := l.nextSeq + 1
      flushing := some (l.nextSeq, rows) }
  | flushRegister (seq : Nat) (rows : List ρ) (hf : l.flushing = some (seq, rows)) :
      LiveStepped layout l .flushRegister { l with
        sstables := l.sstables ++ [⟨seq, layout.zoneMap rows⟩]
        flushing := none
        flushed := l.flushed + rows }
  | drain (hp : l.phase = .idle) : LiveStepped layout l .drain
      { l with sstables := [], phase := .drained l.sstables }
  | number (inputs : List SSTableMeta) (hp : l.phase = .drained inputs) :
      LiveStepped layout l .number
        { l with nextSeq := l.nextSeq + 1, phase := .numbered inputs l.nextSeq }
  | readEmpty (inputs : List SSTableMeta) (out : Nat) (hp : l.phase = .numbered inputs out)
      (he : l.dir.read inputs = []) :
      LiveStepped layout l .read { l with phase := .deleting (deleteSteps inputs) }
  | read (inputs : List SSTableMeta) (out : Nat) (hp : l.phase = .numbered inputs out) :
      LiveStepped layout l .read { l with
        phase := .writing (outputSteps layout out (l.dir.read inputs)) inputs out
          (l.dir.read inputs) }
  | write (st : FsStep ρ) (steps : List (FsStep ρ)) (inputs : List SSTableMeta) (out : Nat)
      (rows : List ρ) (hp : l.phase = .writing (st :: steps) inputs out rows) :
      LiveStepped layout l .write
        { l with dir := l.dir.apply st, phase := .writing steps inputs out rows }
  | register (inputs : List SSTableMeta) (out : Nat) (rows : List ρ)
      (hp : l.phase = .writing [] inputs out rows) :
      LiveStepped layout l .register { l with
        sstables := l.sstables ++ [⟨out, layout.zoneMap rows⟩]
        phase := .deleting (deleteSteps inputs) }
  | delete (st : FsStep ρ) (steps : List (FsStep ρ)) (hp : l.phase = .deleting (st :: steps)) :
      LiveStepped layout l .delete { l with dir := l.dir.apply st, phase := .deleting steps }
  | finish (hp : l.phase = .deleting []) : LiveStepped layout l .finish { l with phase := .idle }

theorem liveStepped_of_step (layout : Layout ρ) (l l' : Live ρ) (a : LiveAct ρ)
    (h : l.step layout a = some l') : LiveStepped layout l a l' := by
  cases a with
  | flushWrite rows =>
    simp only [Live.step] at h
    split at h
    · cases h
      exact .flushWrite rows
    · cases h
  | flushRegister =>
    simp only [Live.step] at h
    split at h
    · cases h
      exact .flushRegister _ _ (by assumption)
    · cases h
  | drain =>
    simp only [Live.step] at h
    split at h
    · split at h
      · cases h
      · cases h
        exact .drain (by assumption)
    · cases h
  | number =>
    simp only [Live.step] at h
    split at h
    · cases h
      exact .number _ (by assumption)
    · cases h
  | read =>
    simp only [Live.step] at h
    split at h
    · split at h
      · cases h
        exact .readEmpty _ _ (by assumption) (List.isEmpty_iff.mp (by assumption))
      · cases h
        exact .read _ _ (by assumption)
    · cases h
  | write =>
    simp only [Live.step] at h
    split at h
    · cases h
      exact .write _ _ _ _ _ (by assumption)
    · cases h
  | register =>
    simp only [Live.step] at h
    split at h
    · cases h
      exact .register _ _ _ (by assumption)
    · cases h
  | delete =>
    simp only [Live.step] at h
    split at h
    · cases h
      exact .delete _ _ (by assumption)
    · cases h
  | finish =>
    simp only [Live.step] at h
    split at h
    · cases h
      exact .finish (by assumption)
    · cases h

def FsStep.parquetNo : FsStep ρ → Option Nat
  | .writeParquet seq _ => some seq
  | .removeParquet seq => some seq
  | _ => none

theorem lookup_apply (d : Dir ρ) (st : FsStep ρ) (n : Nat) (h : st.parquetNo ≠ some n) :
    (d.apply st).parquet.lookup n = d.parquet.lookup n := by
  cases st with
  | writeParquet seq rows =>
    have hne : n ≠ seq := fun he => h (he ▸ rfl)
    exact AList.lookup_insert_ne hne
  | removeParquet seq =>
    have hne : n ≠ seq := fun he => h (he ▸ rfl)
    exact AList.lookup_erase_ne hne
  | _ => rfl

theorem read_congr (d d' : Dir ρ) (metas : List SSTableMeta)
    (h : ∀ m ∈ metas, d'.parquet.lookup m.seq = d.parquet.lookup m.seq) :
    d'.read metas = d.read metas := by
  apply List.flatMap_congr
  intro m hm
  rw [h m hm]

/-- Both the registered tables and the drained inputs. -/
def Live.tables (l : Live ρ) : List SSTableMeta := l.sstables ++ l.phase.inputs

/-- What holds of a table at every moment: the flushed rows are those of the registered
tables and of the drained inputs, whose files are all there; the files being written or
deleted are no table's. -/
structure Steady (layout : Layout ρ) (l : Live ρ) : Prop where
  present : ∀ m ∈ l.tables, (l.dir.parquet.lookup m.seq).isSome = true
  below : ∀ m ∈ l.tables, m.seq < l.nextSeq
  distinct : (l.tables.map SSTableMeta.seq).Nodup
  rows : (l.dir.read l.tables : Multiset ρ) = l.flushed
  flush : ∀ f ∈ l.flushing, l.dir.parquet.lookup f.1 = some f.2 ∧ f.1 < l.nextSeq ∧
    f.1 ∉ l.tables.map SSTableMeta.seq ∧ l.phase.out ≠ some f.1
  out : ∀ o ∈ l.phase.out, o < l.nextSeq ∧ o ∉ l.tables.map SSTableMeta.seq
  output : ∀ steps inputs out rows, l.phase = .writing steps inputs out rows →
    rows = l.dir.read inputs ∧ ∃ before, outputSteps layout out rows = before ++ steps ∧
      (before ≠ [] → l.dir.parquet.lookup out = some rows)
  deletes : ∀ st ∈ l.phase.deletes, ∀ n ∈ st.parquetNo,
    n < l.nextSeq ∧ n ∉ l.sstables.map SSTableMeta.seq ∧ ∀ f ∈ l.flushing, f.1 ≠ n

/-- A table as far as its files are concerned; the number of the flush under way, if any,
stands for a table too. -/
def Live.owned (l : Live ρ) (n : Nat) : Prop :=
  n ∈ l.tables.map SSTableMeta.seq ∨ ∃ f ∈ l.flushing, f.1 = n

theorem read_append (d : Dir ρ) (ms ms' : List SSTableMeta) :
    d.read (ms ++ ms') = d.read ms ++ d.read ms' := List.flatMap_append

theorem deleteSteps_parquetNo (inputs : List SSTableMeta) (st : FsStep ρ) (n : Nat)
    (hst : st ∈ deleteSteps inputs) (hn : st.parquetNo = some n) :
    ∃ m ∈ inputs, m.seq = n ∧ st = .removeParquet m.seq := by
  obtain ⟨m, hm, hmst⟩ := List.mem_flatMap.mp hst
  simp only [removeSteps, List.mem_cons, List.not_mem_nil, or_false] at hmst
  obtain rfl | rfl | rfl := hmst
  · exact ⟨m, hm, Option.some.inj hn, rfl⟩
  · cases hn
  · cases hn

theorem mem_deleteSteps (inputs : List SSTableMeta) (st : FsStep ρ)
    (hst : st ∈ deleteSteps inputs) (n : Nat) (hn : n ∈ st.parquetNo) :
    n ∈ inputs.map SSTableMeta.seq := by
  obtain ⟨m, hm, hseq, _⟩ := deleteSteps_parquetNo inputs st n hst hn
  exact hseq ▸ List.mem_map_of_mem hm

theorem outputSteps_split (layout : Layout ρ) (out : Nat) (rows : List ρ)
    (before : List (FsStep ρ)) (st : FsStep ρ) (steps : List (FsStep ρ))
    (h : outputSteps layout out rows = before ++ st :: steps) :
    (before = [] ∧ st = .writeParquet out rows) ∨ (before ≠ [] ∧ st.parquetNo = none) := by
  cases before with
  | nil => exact Or.inl ⟨rfl, (List.cons.inj h).1.symm⟩
  | cons b before =>
    refine Or.inr ⟨List.cons_ne_nil b before, ?_⟩
    have htail : _ = before ++ st :: steps := (List.cons.inj h).2
    have hmem : st ∈ before ++ st :: steps := by simp
    rw [← htail] at hmem
    simp only [List.mem_cons, List.not_mem_nil, or_false] at hmem
    obtain rfl | rfl | rfl := hmem <;> rfl

section Steady
variable (layout : Layout ρ) (l : Live ρ) (h : Steady layout l)
include h

theorem steady_frame (d : Dir ρ) (phase : Phase ρ) (hinputs : phase.inputs = l.phase.inputs)
    (hout : phase.out = l.phase.out) (hdel : ∀ st ∈ phase.deletes, st ∈ l.phase.deletes)
    (hd : ∀ n, l.owned n → d.parquet.lookup n = l.dir.parquet.lookup n)
    (houtput : ∀ steps inputs out rows, phase = .writing steps inputs out rows →
      rows = d.read inputs ∧ ∃ before, outputSteps layout out rows = before ++ steps ∧
        (before ≠ [] → d.parquet.lookup out = some rows)) :
    Steady layout { l with dir := d, phase := phase } := by
  have htables : Live.tables { l with dir := d, phase := phase } = l.tables :=
    congrArg (l.sstables ++ ·) hinputs
  have hkeep : ∀ m ∈ l.tables, d.parquet.lookup m.seq = l.dir.parquet.lookup m.seq :=
    fun m hm => hd m.seq (Or.inl (List.mem_map_of_mem hm))
  refine ⟨?_, ?_, ?_, ?_, ?_, ?_, houtput, ?_⟩
  · intro m hm
    rw [htables] at hm
    exact (congrArg Option.isSome (hkeep m hm)).trans (h.present m hm)
  · intro m hm
    exact h.below m (htables ▸ hm)
  · rw [htables]
    exact h.distinct
  · rw [htables]
    exact (congrArg _ (read_congr l.dir d l.tables hkeep)).trans h.rows
  · intro f hf
    obtain ⟨hfile, hlt, hnot, hne⟩ := h.flush f hf
    rw [htables]
    exact ⟨(hd f.1 (Or.inr ⟨f, hf, rfl⟩)).trans hfile, hlt, hnot, hout ▸ hne⟩
  · intro o ho
    rw [htables]
    exact h.out o (hout ▸ ho)
  · intro st hst
    exact h.deletes st (hdel st hst)

theorem owned_lt (n : Nat) (hn : l.owned n) : n < l.nextSeq := by
  cases hn with
  | inl hmem =>
    obtain ⟨m, hm, he⟩ := List.mem_map.mp hmem
    exact he ▸ h.below m hm
  | inr hflush =>
    obtain ⟨f, hf, he⟩ := hflush
    exact he ▸ (h.flush f hf).2.1

theorem out_not_owned (o : Nat) (ho : o ∈ l.phase.out) : ¬ l.owned o := by
  intro hn
  cases hn with
  | inl hmem => exact (h.out o ho).2 hmem
  | inr hflush =>
    obtain ⟨f, hf, he⟩ := hflush
    exact (h.flush f hf).2.2.2 (he ▸ ho)

theorem delete_not_owned (hin : l.phase.inputs = []) (st : FsStep ρ) (hst : st ∈ l.phase.deletes)
    (n : Nat) (hn : n ∈ st.parquetNo) : ¬ l.owned n := by
  obtain ⟨_, hreg, hflush⟩ := h.deletes st hst n hn
  intro ho
  cases ho with
  | inl hmem =>
    rw [Live.tables, hin, List.append_nil] at hmem
    exact hreg hmem
  | inr hf =>
    obtain ⟨f, hf, he⟩ := hf
    exact hflush f hf he

theorem steady_flushWrite (rows : List ρ) :
    Steady layout { l with
      dir := (flushSteps layout l.nextSeq rows).foldl Dir.apply l.dir
      nextSeq := l.nextSeq + 1
      flushing := some (l.nextSeq, rows) } := by
  have hother : ∀ n, n < l.nextSeq → ((flushSteps layout l.nextSeq rows).foldl Dir.apply
      l.dir).parquet.lookup n = l.dir.parquet.lookup n := by
    intro n hn
    exact AList.lookup_insert_ne (Nat.ne_of_lt hn)
  have hframe := steady_frame layout l h _ l.phase rfl rfl (fun _ hst => hst)
    (fun n hn => hother n (owned_lt layout l h n hn)) (by
      intro steps inputs out rows' hphase
      obtain ⟨hrows, before, hsplit, hout⟩ := h.output steps inputs out rows' hphase
      have hin : ∀ m ∈ inputs, m ∈ l.tables := by
        intro m hm
        rw [Live.tables, hphase]
        exact List.mem_append_right l.sstables hm
      refine ⟨?_, before, hsplit, ?_⟩
      · rw [hrows]
        exact (read_congr _ _ inputs fun m hm => hother m.seq (h.below m (hin m hm))).symm
      · intro hb
        rw [hother out (h.out out (by rw [hphase]; rfl)).1]
        exact hout hb)
  have hfresh : l.nextSeq ∉ l.tables.map SSTableMeta.seq :=
    fun hm => Nat.lt_irrefl _ (owned_lt layout l h l.nextSeq (Or.inl hm))
  refine ⟨hframe.present, fun m hm => Nat.lt_succ_of_lt (hframe.below m hm), hframe.distinct,
    hframe.rows, ?_, ?_, hframe.output, ?_⟩
  · intro f hmem
    cases hmem
    refine ⟨AList.lookup_insert _, Nat.lt_succ_self _, hfresh, ?_⟩
    intro ho
    exact Nat.lt_irrefl _ (h.out l.nextSeq ho).1
  · intro o ho
    exact ⟨Nat.lt_succ_of_lt (h.out o ho).1, (h.out o ho).2⟩
  · intro st hst n hn
    obtain ⟨hlt, hreg, _⟩ := h.deletes st hst n hn
    refine ⟨Nat.lt_succ_of_lt hlt, hreg, ?_⟩
    intro f hmem
    cases hmem
    exact Nat.ne_of_gt hlt

theorem steady_flushRegister (new : SSTableMeta) (rows : List ρ)
    (hf : l.flushing = some (new.seq, rows)) :
    Steady layout { l with
      sstables := l.sstables ++ [new]
      flushing := none
      flushed := l.flushed + rows } := by
  obtain ⟨hfile, hlt, hnot, hne⟩ := h.flush (new.seq, rows) hf
  have hperm : (l.sstables ++ [new] ++ l.phase.inputs).Perm
      (new :: l.tables) := by
    rw [List.append_assoc]
    exact List.perm_middle
  have hmem : ∀ m ∈ l.sstables ++ [new] ++ l.phase.inputs,
      m.seq = new.seq ∨ m ∈ l.tables := by
    intro m hm
    exact (List.mem_cons.mp (hperm.mem_iff.mp hm)).imp_left (congrArg SSTableMeta.seq)
  refine ⟨?_, ?_, ?_, ?_, (by intro f hf; cases hf), ?_, h.output, ?_⟩
  · intro m hm
    cases hmem m hm with
    | inl he =>
      rw [he, hfile]
      rfl
    | inr ht => exact h.present m ht
  · intro m hm
    cases hmem m hm with
    | inl he => exact he ▸ hlt
    | inr ht => exact h.below m ht
  · exact (hperm.map SSTableMeta.seq).nodup_iff.mpr (List.nodup_cons.mpr ⟨hnot, h.distinct⟩)
  · have hread : (l.dir.read (new :: l.tables) : Multiset ρ) =
        rows + l.dir.read l.tables := by
      rw [Dir.read, List.flatMap_cons, hfile]
      rfl
    calc
      (l.dir.read (l.sstables ++ [new] ++ l.phase.inputs) : Multiset ρ) =
          l.dir.read (new :: l.tables) := Multiset.coe_eq_coe.mpr (hperm.flatMap_right _)
      _ = rows + l.dir.read l.tables := hread
      _ = l.flushed + rows := by rw [h.rows, Multiset.add_comm]
  · intro o ho
    refine ⟨(h.out o ho).1, ?_⟩
    intro hm
    obtain ⟨m, hm, he⟩ := List.mem_map.mp hm
    cases hmem m hm with
    | inl hs => exact hne ((hs.symm.trans he) ▸ ho)
    | inr ht => exact (h.out o ho).2 (he ▸ List.mem_map_of_mem ht)
  · intro st hst n hn
    obtain ⟨hn1, hreg, hflush⟩ := h.deletes st hst n hn
    refine ⟨hn1, ?_, (by intro f hf; cases hf)⟩
    rw [List.map_append, List.mem_append, not_or]
    refine ⟨hreg, ?_⟩
    intro hm
    exact hflush (new.seq, rows) hf (List.mem_singleton.mp hm).symm

theorem steady_regroup (sstables : List SSTableMeta) (nextSeq : Nat) (phase : Phase ρ)
    (htables : sstables ++ phase.inputs = l.tables) (hseq : l.nextSeq ≤ nextSeq)
    (hout : ∀ o ∈ phase.out, l.nextSeq ≤ o ∧ o < nextSeq) (hdel : phase.deletes = [])
    (hwriting : ∀ steps inputs out rows, phase ≠ .writing steps inputs out rows) :
    Steady layout { l with sstables := sstables, nextSeq := nextSeq, phase := phase } := by
  have hlive : Live.tables { l with sstables := sstables, nextSeq := nextSeq, phase := phase } =
      l.tables := htables
  refine ⟨?_, ?_, ?_, ?_, ?_, ?_, ?_, ?_⟩
  · exact fun m hm => h.present m (hlive ▸ hm)
  · exact fun m hm => lt_of_lt_of_le (h.below m (hlive ▸ hm)) hseq
  · rw [hlive]
    exact h.distinct
  · rw [hlive]
    exact h.rows
  · intro f hf
    obtain ⟨hfile, hlt, hnot, _⟩ := h.flush f hf
    rw [hlive]
    refine ⟨hfile, lt_of_lt_of_le hlt hseq, hnot, ?_⟩
    intro ho
    exact absurd (hout f.1 ho).1 (Nat.not_le_of_lt hlt)
  · intro o ho
    rw [hlive]
    refine ⟨(hout o ho).2, ?_⟩
    intro hm
    exact absurd (hout o ho).1 (Nat.not_le_of_lt (owned_lt layout l h o (Or.inl hm)))
  · intro steps inputs out rows hw
    exact absurd hw (hwriting steps inputs out rows)
  · intro st hst
    rw [hdel] at hst
    cases hst

theorem steady_drain (hp : l.phase = .idle) :
    Steady layout { l with sstables := [], phase := .drained l.sstables } := by
  refine steady_regroup layout l h [] l.nextSeq (.drained l.sstables) ?_ le_rfl
    (by intro o ho; cases ho) rfl (by simp)
  rw [Live.tables, hp]
  exact (List.append_nil l.sstables).symm

theorem steady_number (inputs : List SSTableMeta) (hp : l.phase = .drained inputs) :
    Steady layout { l with nextSeq := l.nextSeq + 1, phase := .numbered inputs l.nextSeq } := by
  refine steady_regroup layout l h l.sstables (l.nextSeq + 1) (.numbered inputs l.nextSeq) ?_
    (Nat.le_succ _) ?_ rfl (by simp)
  · rw [Live.tables, hp]
    rfl
  · intro o ho
    cases ho
    exact ⟨le_rfl, Nat.lt_succ_self _⟩

theorem steady_release (added : List SSTableMeta)
    (hadded : ∀ m ∈ added, m.seq ∈ l.phase.out ∧ (l.dir.parquet.lookup m.seq).isSome = true)
    (hnodup : (added.map SSTableMeta.seq).Nodup)
    (hrows : l.dir.read added = l.dir.read l.phase.inputs) :
    Steady layout { l with
      sstables := l.sstables ++ added
      phase := .deleting (deleteSteps l.phase.inputs) } := by
  have htables : Live.tables { l with
      sstables := l.sstables ++ added
      phase := .deleting (deleteSteps l.phase.inputs) } = l.sstables ++ added :=
    List.append_nil (l.sstables ++ added)
  have hdistinct := h.distinct
  rw [Live.tables, List.map_append, List.nodup_append] at hdistinct
  have hseq : ∀ n ∈ added.map SSTableMeta.seq, n ∈ l.phase.out := by
    intro n hn
    obtain ⟨m, hm, he⟩ := List.mem_map.mp hn
    exact he ▸ (hadded m hm).1
  have hold : ∀ n ∈ l.sstables.map SSTableMeta.seq, n ∈ l.tables.map SSTableMeta.seq := by
    intro n hn
    rw [Live.tables, List.map_append]
    exact List.mem_append_left _ hn
  have hin : ∀ n ∈ l.phase.inputs.map SSTableMeta.seq, n ∈ l.tables.map SSTableMeta.seq := by
    intro n hn
    rw [Live.tables, List.map_append]
    exact List.mem_append_right _ hn
  refine ⟨?_, ?_, ?_, ?_, ?_, (by intro o ho; cases ho), (by intro _ _ _ _ hw; cases hw), ?_⟩
  · intro m hm
    rw [htables] at hm
    cases List.mem_append.mp hm with
    | inl hs => exact h.present m (List.mem_append_left _ hs)
    | inr ha => exact (hadded m ha).2
  · intro m hm
    rw [htables] at hm
    cases List.mem_append.mp hm with
    | inl hs => exact h.below m (List.mem_append_left _ hs)
    | inr ha => exact (h.out m.seq (hadded m ha).1).1
  · rw [htables, List.map_append, List.nodup_append]
    refine ⟨hdistinct.1, hnodup, ?_⟩
    intro a ha b hb he
    exact (h.out b (hseq b hb)).2 (hold b (he ▸ ha))
  · rw [htables, ← h.rows, Live.tables]
    rw [read_append, read_append, hrows]
  · intro f hf
    obtain ⟨hfile, hlt, hnot, hne⟩ := h.flush f hf
    rw [htables, List.map_append, List.mem_append, not_or]
    exact ⟨hfile, hlt, ⟨fun hm => hnot (hold f.1 hm), fun hm => hne (hseq f.1 hm)⟩,
      (by intro ho; cases ho)⟩
  · intro st hst n hn
    have hmem := mem_deleteSteps l.phase.inputs st hst n hn
    refine ⟨owned_lt layout l h n (Or.inl (hin n hmem)), ?_, ?_⟩
    · rw [List.map_append, List.mem_append, not_or]
      exact ⟨fun hs => hdistinct.2.2 n hs n hmem rfl,
        fun ha => (h.out n (hseq n ha)).2 (hin n hmem)⟩
    · intro f hf he
      exact (h.flush f hf).2.2.1 (he ▸ hin n hmem)

theorem steady_read (inputs : List SSTableMeta) (out : Nat) (hp : l.phase = .numbered inputs out) :
    Steady layout { l with
      phase := .writing (outputSteps layout out (l.dir.read inputs)) inputs out
        (l.dir.read inputs) } := by
  refine steady_frame layout l h l.dir _ (by rw [hp]; rfl) (by rw [hp]; rfl)
    (by intro st hst; cases hst) (fun n _ => rfl) ?_
  intro steps inputs' out' rows hw
  cases hw
  exact ⟨rfl, [], rfl, fun hne => absurd rfl hne⟩

theorem steady_write (st : FsStep ρ) (steps : List (FsStep ρ)) (inputs : List SSTableMeta)
    (out : Nat) (rows : List ρ) (hp : l.phase = .writing (st :: steps) inputs out rows) :
    Steady layout { l with dir := l.dir.apply st, phase := .writing steps inputs out rows } := by
  obtain ⟨hrows, before, hsplit, hfile⟩ := h.output _ _ _ _ hp
  have hcase := outputSteps_split layout out rows before st steps hsplit
  have hnot : ¬ l.owned out := out_not_owned layout l h out (by rw [hp]; rfl)
  have hkeep : ∀ n, l.owned n → (l.dir.apply st).parquet.lookup n = l.dir.parquet.lookup n := by
    intro n hn
    apply lookup_apply
    obtain ⟨_, rfl⟩ | ⟨_, hnone⟩ := hcase
    · intro he
      exact hnot (Option.some.inj he ▸ hn)
    · simp [hnone]
  have hin : ∀ m ∈ inputs, l.owned m.seq := by
    intro m hm
    refine Or.inl (List.mem_map_of_mem ?_)
    rw [Live.tables, hp]
    exact List.mem_append_right _ hm
  refine steady_frame layout l h (l.dir.apply st) _ (by rw [hp]; rfl) (by rw [hp]; rfl)
    (by intro st hst; cases hst) hkeep ?_
  intro steps' inputs' out' rows' hw
  cases hw
  refine ⟨?_, before ++ [st], by rw [hsplit, List.append_assoc]; rfl, ?_⟩
  · rw [read_congr l.dir _ inputs fun m hm => hkeep m.seq (hin m hm)]
    exact hrows
  · intro _
    obtain ⟨_, rfl⟩ | ⟨hne, hnone⟩ := hcase
    · exact AList.lookup_insert _
    · rw [lookup_apply l.dir st out (by simp [hnone])]
      exact hfile hne

theorem steady_delete (st : FsStep ρ) (steps : List (FsStep ρ))
    (hp : l.phase = .deleting (st :: steps)) :
    Steady layout { l with dir := l.dir.apply st, phase := .deleting steps } := by
  refine steady_frame layout l h (l.dir.apply st) _ (by rw [hp]; rfl) (by rw [hp]; rfl) ?_ ?_
    (by intro _ _ _ _ hw; cases hw)
  · intro st' hst
    rw [hp]
    exact List.mem_cons_of_mem st hst
  · intro n hn
    apply lookup_apply
    intro hst
    exact delete_not_owned layout l h (by rw [hp]; rfl) st (by rw [hp]; exact List.mem_cons_self)
      n hst hn

theorem steady_step (l' : Live ρ) (a : LiveAct ρ) (hstep : l.step layout a = some l') :
    Steady layout l' := by
  cases liveStepped_of_step layout l l' a hstep with
  | flushWrite rows => exact steady_flushWrite layout l h rows
  | flushRegister seq rows hf => exact steady_flushRegister layout l h ⟨seq, _⟩ rows hf
  | drain hp => exact steady_drain layout l h hp
  | number inputs hp => exact steady_number layout l h inputs hp
  | readEmpty inputs out hp he =>
    have hin : l.phase.inputs = inputs := by rw [hp]; rfl
    have hrel := steady_release layout l h [] (by intro m hm; cases hm) List.nodup_nil
      (by rw [hin, he]; rfl)
    rw [hin, List.append_nil] at hrel
    exact hrel
  | read inputs out hp => exact steady_read layout l h inputs out hp
  | write st steps inputs out rows hp => exact steady_write layout l h st steps inputs out rows hp
  | register inputs out rows hp =>
    have hin : l.phase.inputs = inputs := by rw [hp]; rfl
    obtain ⟨hrows, before, hsplit, hfile⟩ := h.output _ _ _ _ hp
    have hlookup : l.dir.parquet.lookup out = some rows := by
      apply hfile
      intro he
      rw [he] at hsplit
      cases hsplit
    have hrel := steady_release layout l h [⟨out, layout.zoneMap rows⟩]
      (by
        intro m hm
        cases List.mem_singleton.mp hm
        exact ⟨by rw [hp]; rfl, by rw [hlookup]; rfl⟩)
      (List.nodup_singleton out)
      (by
        rw [hin, ← hrows, Dir.read, List.flatMap_singleton, hlookup]
        rfl)
    rw [hin] at hrel
    exact hrel
  | delete st steps hp => exact steady_delete layout l h st steps hp
  | finish hp =>
    exact steady_frame layout l h l.dir .idle (by rw [hp]; rfl) (by rw [hp]; rfl)
      (by intro st hst; cases hst) (fun n _ => rfl) (by intro _ _ _ _ hw; cases hw)

/-- A number that was given out before, other than the output's, keeps its file through
every step that does not delete it. -/
theorem lookup_step (l' : Live ρ) (a : LiveAct ρ) (hstep : l.step layout a = some l') (n : Nat)
    (hlt : n < l.nextSeq) (hout : l.phase.out ≠ some n)
    (hdel : ∀ st steps, a = .delete → l.phase = .deleting (st :: steps) →
      st.parquetNo ≠ some n) :
    l'.dir.parquet.lookup n = l.dir.parquet.lookup n ∧ n < l'.nextSeq ∧
      l'.phase.out ≠ some n := by
  cases liveStepped_of_step layout l l' a hstep with
  | flushWrite rows =>
    exact ⟨AList.lookup_insert_ne (Nat.ne_of_lt hlt), Nat.lt_succ_of_lt hlt, hout⟩
  | flushRegister seq rows hf => exact ⟨rfl, hlt, hout⟩
  | drain hp => exact ⟨rfl, hlt, by simp [Phase.out]⟩
  | number inputs hp =>
    exact ⟨rfl, Nat.lt_succ_of_lt hlt, fun he => Nat.ne_of_gt hlt (Option.some.inj he)⟩
  | readEmpty inputs out hp he => exact ⟨rfl, hlt, by simp [Phase.out]⟩
  | read inputs out hp =>
    rw [hp] at hout
    exact ⟨rfl, hlt, hout⟩
  | write st steps inputs out rows hp =>
    obtain ⟨_, before, hsplit, _⟩ := h.output _ _ _ _ hp
    rw [hp] at hout
    refine ⟨lookup_apply l.dir st n ?_, hlt, hout⟩
    obtain ⟨_, rfl⟩ | ⟨_, hnone⟩ := outputSteps_split layout out rows before st steps hsplit
    · exact hout
    · simp [hnone]
  | register inputs out rows hp => exact ⟨rfl, hlt, by simp [Phase.out]⟩
  | delete st steps hp =>
    exact ⟨lookup_apply l.dir st n (hdel st steps rfl hp), hlt, by simp [Phase.out]⟩
  | finish hp => exact ⟨rfl, hlt, by simp [Phase.out]⟩

end Steady

theorem steady_new (layout : Layout ρ) : Steady layout Live.new where
  present := by intro _ hm; cases hm
  below := by intro _ hm; cases hm
  distinct := List.nodup_nil
  rows := rfl
  flush := by intro _ hf; cases hf
  out := by intro _ ho; cases ho
  output := by intro _ _ _ _ hw; cases hw
  deletes := by intro _ hst; cases hst

end InfraLens.Tables
