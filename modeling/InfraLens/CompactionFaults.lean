import InfraLens.Compaction
import InfraLens.LibList
import InfraLens.Model
import Mathlib.Data.List.Flatten

/-! `compact_signal` (compaction.rs) when steps of it fail: what it reads of its inputs, where it
stops, and what is registered and on disk after it. -/
namespace InfraLens.Tables
open LibList Model

variable {ρ : Type}

/-! ### The model -/

/-- The batch size `compact_signal` reads with. -/
def batchSize : Nat := 65536

def fileBatches (rows : List ρ) : List (List ρ) := (rows.toChunksAux (batchSize - 1) 0).2

/-- The steps that write the output. -/
inductive OutputStep where
  | create
  | writer
  | write (batch : Nat)
  | close
  | reopen
  | sync
  | bloom
  | zonemap

/-- What fails: opening an input, reading a batch of it, a step of the output, a removal. A
failing step of the output may have changed files. -/
structure Faults (ρ : Type) where
  unopenable : Nat → Bool
  unreadable : Nat → Nat → Bool
  output : OutputStep → Option (List (FsStep ρ))
  removal : FsStep ρ → Bool

def Faults.none : Faults ρ where
  unopenable _ := false
  unreadable _ _ := false
  output _ := Option.none
  removal _ := false

inductive Outcome where
  | ok (merged : Bool)
  | err
  deriving DecidableEq

def goodBatches (unreadable : Nat → Bool) (batches : List (List ρ)) : List (List ρ) :=
  batches.zipIdx.flatMap fun b => if unreadable b.2 then [] else [b.1]

section Model
variable (layout : Layout ρ) (f : Faults ρ)

/-- What is read of one input: nothing of a missing file or of one that cannot be opened. -/
def readInput (d : Dir ρ) (m : SSTableMeta) : List (List ρ) :=
  match d.parquet.lookup m.seq with
  | none => []
  | some rows =>
    if f.unopenable m.seq then [] else goodBatches (f.unreadable m.seq) (fileBatches rows)

def readInputs (d : Dir ρ) (inputs : List SSTableMeta) : List (List ρ) :=
  inputs.flatMap (readInput f d)

/-- The steps of the output, with what each does to the files. The parquet file has its rows once
the writer is closed. -/
def outputPlan (out : Nat) (batches : List (List ρ)) : List (OutputStep × List (FsStep ρ)) :=
  [(.create, [.writeParquet out []]), (.writer, [])] ++
    (List.range batches.length).map (fun k => (.write k, [])) ++
    [(.close, [.writeParquet out batches.flatten]), (.reopen, []), (.sync, [.sync out]),
      (.bloom, [.writeBloom out (layout.mergedBloom (max batches.flatten.length 1))]),
      (.zonemap, [.writeZonemap out (layout.zoneMap batches.flatten)])]

def runSteps (d : Dir ρ) : List (OutputStep × List (FsStep ρ)) → Bool × Dir ρ
  | [] => (true, d)
  | (step, effects) :: steps =>
    match f.output step with
    | some left => (false, left.foldl Dir.apply d)
    | none => runSteps (effects.foldl Dir.apply d) steps

/-- `delete_sstable_files`: what cannot be removed stays. -/
def deleteFiles (d : Dir ρ) (inputs : List SSTableMeta) : Dir ρ :=
  ((deleteSteps inputs).filter fun st => !f.removal st).foldl Dir.apply d

def compactSignal (s : SignalPartition ρ) : Outcome × SignalPartition ρ :=
  if s.sstables.length < 2 then (.ok false, s)
  else
    let batches := readInputs f s.dir s.sstables
    if batches.isEmpty then
      (.ok false, ⟨deleteFiles f s.dir s.sstables, [], s.nextSeq + 1⟩)
    else
      match runSteps f s.dir (outputPlan layout s.nextSeq batches) with
      | (false, d) => (.err, ⟨d, [], s.nextSeq + 1⟩)
      | (true, d) => (.ok true, ⟨deleteFiles f d s.sstables,
          [⟨s.nextSeq, layout.zoneMap batches.flatten⟩], s.nextSeq + 1⟩)

def compactAt (trigger : Nat) (faults : SignalType → Faults ρ)
    (acc : Nat × (SignalType → SignalPartition ρ)) (signal : SignalType) :
    Nat × (SignalType → SignalPartition ρ) :=
  if (acc.2 signal).sstables.length ≥ trigger then
    let result := compactSignal layout (faults signal) (acc.2 signal)
    (if result.1 = .ok true then acc.1 + 1 else acc.1, Function.update acc.2 signal result.2)
  else acc

/-- `compact_partition`: how many signals were merged, and the signals. An error is logged. -/
def compactPartition (trigger : Nat) (faults : SignalType → Faults ρ)
    (partition : SignalType → SignalPartition ρ) : Nat × (SignalType → SignalPartition ρ) :=
  [.log, .metric, .span].foldl (compactAt layout trigger faults) (0, partition)

/-- Every row of a registered table is in the file of one afterwards, and an error leaves the
same tables registered. -/
def LosesNothing (s : SignalPartition ρ) : Prop :=
  s.rows ≤ (compactSignal layout f s).2.rows ∧
    ((compactSignal layout f s).1 = .err → (compactSignal layout f s).2.sstables = s.sstables)

def AllRead (s : SignalPartition ρ) : Prop :=
  ∀ m ∈ s.sstables, ∀ rows, s.dir.parquet.lookup m.seq = some rows → rows ≠ [] →
    f.unopenable m.seq = false ∧ ∀ k < (fileBatches rows).length, f.unreadable m.seq k = false

/-- No step of the output fails, and the output is not among the files deleted. The latter is so
for every table whose numbers are below the next, as `open_nextSeq` has it of an opened one. -/
structure OutputWritten (s : SignalPartition ρ) : Prop where
  steps : ∀ p ∈ outputPlan layout s.nextSeq (readInputs f s.dir s.sstables), f.output p.1 = none
  kept : ∀ m ∈ s.sstables, m.seq = s.nextSeq → f.removal (.removeParquet m.seq) = true

end Model

/-! ### Reading -/

section Reading
variable (f : Faults ρ) (d : Dir ρ)

theorem flatten_fileBatches (rows : List ρ) : (fileBatches rows).flatten = rows := by
  have happend := toChunksAux_append (batchSize - 1) rows 0
  rwa [toChunksAux_fst_zero, List.nil_append] at happend

theorem flatten_goodBatches (unreadable : Nat → Bool) (batches : List (List ρ)) :
    (goodBatches unreadable batches).flatten =
      batches.zipIdx.flatMap fun b => if unreadable b.2 then [] else b.1 := by
  rw [goodBatches, ← List.flatMap_id, List.flatMap_assoc]
  apply List.flatMap_congr
  intro b _
  split <;> simp

theorem flatten_eq_flatMap (batches : List (List ρ)) :
    batches.flatten = batches.zipIdx.flatMap Prod.fst := by
  rw [List.flatMap_def, List.zipIdx_map_fst]

theorem goodBatches_sublist (unreadable : Nat → Bool) (batches : List (List ρ)) :
    (goodBatches unreadable batches).flatten.Sublist batches.flatten := by
  rw [flatten_goodBatches, flatten_eq_flatMap batches]
  apply List.Sublist.flatMap_right
  intro b _
  split
  · exact List.nil_sublist b.1
  · exact List.Sublist.refl b.1

theorem mem_of_mem_goodBatches (unreadable : Nat → Bool) (batches : List (List ρ)) (b : List ρ)
    (h : b ∈ goodBatches unreadable batches) : b ∈ batches := by
  obtain ⟨p, hp, hbp⟩ := List.mem_flatMap.mp h
  split at hbp
  · exact absurd hbp List.not_mem_nil
  · rw [List.mem_singleton.mp hbp]
    exact List.fst_mem_of_mem_zipIdx hp

theorem goodBatches_eq_iff (unreadable : Nat → Bool) (batches : List (List ρ))
    (hne : ∀ b ∈ batches, b ≠ []) :
    (goodBatches unreadable batches).flatten = batches.flatten ↔
      ∀ k < batches.length, unreadable k = false := by
  rw [flatten_goodBatches, flatten_eq_flatMap batches, flatMap_eq_iff]
  · constructor
    · intro hkept k hk
      have hmem : (batches[k], k) ∈ batches.zipIdx :=
        List.mem_zipIdx_iff_getElem?.mpr (List.getElem?_eq_getElem hk)
      cases hbad : unreadable k with
      | false => rfl
      | true =>
        have hnil := hkept _ hmem
        rw [if_pos hbad] at hnil
        exact absurd hnil.symm (hne _ (List.getElem_mem hk))
    · intro hgood b hb
      have hk : b.2 < batches.length := (List.mem_zipIdx' hb).1
      rw [hgood b.2 hk]
      rfl
  · intro b _
    split
    · exact Nat.zero_le _
    · exact Nat.le_refl _

theorem readInput_some (m : SSTableMeta) (rows : List ρ)
    (h : d.parquet.lookup m.seq = some rows) :
    readInput f d m =
      if f.unopenable m.seq then [] else goodBatches (f.unreadable m.seq) (fileBatches rows) := by
  rw [readInput, h]

theorem readInput_none (m : SSTableMeta) (h : d.parquet.lookup m.seq = none) :
    readInput f d m = [] := by
  rw [readInput, h]

theorem readInput_sublist (m : SSTableMeta) :
    (readInput f d m).flatten.Sublist ((d.parquet.lookup m.seq).getD []) := by
  cases hfile : d.parquet.lookup m.seq with
  | none =>
    rw [readInput_none f d m hfile]
    exact List.nil_sublist []
  | some rows =>
    rw [readInput_some f d m rows hfile]
    split
    · exact List.nil_sublist rows
    · have hgood := goodBatches_sublist (f.unreadable m.seq) (fileBatches rows)
      rwa [flatten_fileBatches] at hgood

theorem readInput_eq_iff (m : SSTableMeta) :
    (readInput f d m).flatten = (d.parquet.lookup m.seq).getD [] ↔
      ∀ rows, d.parquet.lookup m.seq = some rows → rows ≠ [] →
        f.unopenable m.seq = false ∧
          ∀ k < (fileBatches rows).length, f.unreadable m.seq k = false := by
  have hsub := readInput_sublist f d m
  cases hfile : d.parquet.lookup m.seq with
  | none => simp [readInput_none f d m hfile]
  | some rows =>
    have hgood := goodBatches_eq_iff (f.unreadable m.seq) (fileBatches rows)
      (ne_nil_of_mem_toChunksAux (batchSize - 1) rows 0)
    rw [flatten_fileBatches] at hgood
    rw [hfile, Option.getD_some] at hsub
    rw [Option.getD_some]
    constructor
    · intro hread rows' hrows' hrows
      cases hrows'
      rw [readInput_some f d m rows hfile] at hread
      split at hread
      · exact absurd hread.symm hrows
      · next hopen => exact ⟨Bool.eq_false_of_not_eq_true hopen, hgood.mp hread⟩
    · intro hread
      by_cases hrows : rows = []
      · rw [hrows] at hsub ⊢
        exact List.sublist_nil.mp hsub
      · obtain ⟨hopen, hbatches⟩ := hread rows rfl hrows
        rw [readInput_some f d m rows hfile, hopen]
        exact hgood.mpr hbatches

theorem readInputs_flatten (inputs : List SSTableMeta) :
    (readInputs f d inputs).flatten = inputs.flatMap fun m => (readInput f d m).flatten := by
  rw [readInputs, ← List.flatMap_id, List.flatMap_assoc]
  simp only [List.flatMap_id]

theorem readInputs_sublist (inputs : List SSTableMeta) :
    (readInputs f d inputs).flatten.Sublist (d.read inputs) := by
  rw [readInputs_flatten]
  exact List.Sublist.flatMap_right inputs fun m _ => readInput_sublist f d m

theorem ne_nil_of_mem_readInputs (inputs : List SSTableMeta) :
    ∀ b ∈ readInputs f d inputs, b ≠ [] := by
  intro b hb
  obtain ⟨m, _, hbm⟩ := List.mem_flatMap.mp hb
  cases hfile : d.parquet.lookup m.seq with
  | none =>
    rw [readInput_none f d m hfile] at hbm
    exact absurd hbm List.not_mem_nil
  | some rows =>
    rw [readInput_some f d m rows hfile] at hbm
    split at hbm
    · exact absurd hbm List.not_mem_nil
    · exact ne_nil_of_mem_toChunksAux (batchSize - 1) rows 0 b
        (mem_of_mem_goodBatches (f.unreadable m.seq) (fileBatches rows) b hbm)

end Reading

theorem readInputs_eq_iff (f : Faults ρ) (s : SignalPartition ρ) :
    (readInputs f s.dir s.sstables).flatten = s.dir.read s.sstables ↔ AllRead f s := by
  rw [readInputs_flatten, Dir.read, flatMap_eq_iff]
  · exact forall₂_congr fun m _ => readInput_eq_iff f s.dir m
  · exact fun m _ => (readInput_sublist f s.dir m).length_le

theorem rows_le_iff (f : Faults ρ) (s : SignalPartition ρ) :
    s.rows ≤ ((readInputs f s.dir s.sstables).flatten : List ρ) ↔ AllRead f s := by
  have hsub := readInputs_sublist f s.dir s.sstables
  rw [← readInputs_eq_iff, SignalPartition.rows, Multiset.coe_le]
  constructor
  · exact fun hle => hsub.eq_of_length_le hle.length_le
  · exact fun heq => heq ▸ List.Subperm.refl _

theorem rows_ne_zero (f : Faults ρ) (s : SignalPartition ρ)
    (h : readInputs f s.dir s.sstables ≠ []) : s.rows ≠ 0 := by
  intro hzero
  have hread : s.dir.read s.sstables = [] := (Multiset.coe_eq_zero _).mp hzero
  have hsub := readInputs_sublist f s.dir s.sstables
  rw [hread, List.sublist_nil, List.flatten_eq_nil_iff] at hsub
  obtain ⟨b, hb⟩ := List.exists_mem_of_ne_nil _ h
  exact ne_nil_of_mem_readInputs f s.dir s.sstables b hb (hsub b hb)

/-! ### The output and the deletions -/

section Output
variable (f : Faults ρ)

theorem runSteps_ok (d : Dir ρ) (plan : List (OutputStep × List (FsStep ρ)))
    (h : ∀ p ∈ plan, f.output p.1 = none) :
    runSteps f d plan = (true, (plan.flatMap Prod.snd).foldl Dir.apply d) := by
  induction plan generalizing d with
  | nil => rfl
  | cons p plan ih =>
    obtain ⟨hp, hplan⟩ := List.forall_mem_cons.mp h
    rw [runSteps, hp, List.flatMap_cons, List.foldl_append]
    exact ih _ hplan

theorem runSteps_fst (d : Dir ρ) (plan : List (OutputStep × List (FsStep ρ))) :
    (runSteps f d plan).1 = true ↔ ∀ p ∈ plan, f.output p.1 = none := by
  induction plan generalizing d with
  | nil => simp [runSteps]
  | cons p plan ih =>
    rw [runSteps, List.forall_mem_cons]
    cases f.output p.1 with
    | none => simpa using ih _
    | some left => simp

theorem outputPlan_effects (layout : Layout ρ) (out : Nat) (batches : List (List ρ)) :
    (outputPlan layout out batches).flatMap Prod.snd =
      .writeParquet out [] :: outputSteps layout out batches.flatten := by
  have hwrites : ((List.range batches.length).map fun k =>
      ((OutputStep.write k, []) : OutputStep × List (FsStep ρ))).flatMap Prod.snd = [] := by
    simp [List.flatMap_map]
  rw [outputPlan, List.flatMap_append, List.flatMap_append, hwrites]
  rfl

theorem lookup_foldl_apply (d : Dir ρ) (steps : List (FsStep ρ)) (n : Nat)
    (h : ∀ st ∈ steps, st.parquetNo ≠ some n) :
    (steps.foldl Dir.apply d).parquet.lookup n = d.parquet.lookup n := by
  induction steps generalizing d with
  | nil => rfl
  | cons st steps ih =>
    obtain ⟨hst, hsteps⟩ := List.forall_mem_cons.mp h
    rw [List.foldl_cons, ih _ hsteps, lookup_apply d st n hst]

theorem lookup_deleteFiles_kept (d : Dir ρ) (inputs : List SSTableMeta) (n : Nat)
    (h : ∀ m ∈ inputs, m.seq = n → f.removal (.removeParquet m.seq) = true) :
    (deleteFiles f d inputs).parquet.lookup n = d.parquet.lookup n := by
  apply lookup_foldl_apply
  intro st hst hn
  obtain ⟨hmem, hremoved⟩ := List.mem_filter.mp hst
  obtain ⟨m, hm, hseq, rfl⟩ := deleteSteps_parquetNo inputs st n hmem hn
  rw [h m hm hseq] at hremoved
  cases hremoved

theorem lookup_foldl_removed (d : Dir ρ) (steps : List (FsStep ρ)) (n : Nat)
    (hremovals : ∀ st ∈ steps, st.parquetNo = some n → st = .removeParquet n)
    (h : .removeParquet n ∈ steps ∨ d.parquet.lookup n = none) :
    (steps.foldl Dir.apply d).parquet.lookup n = none := by
  induction steps generalizing d with
  | nil => exact h.resolve_left List.not_mem_nil
  | cons st steps ih =>
    obtain ⟨hst, hsteps⟩ := List.forall_mem_cons.mp hremovals
    apply ih _ hsteps
    by_cases hn : st.parquetNo = some n
    · rw [hst hn]
      exact Or.inr (AList.lookup_erase n _)
    · rw [lookup_apply d st n hn]
      refine h.imp_left fun hmem => (List.mem_cons.mp hmem).resolve_left ?_
      exact fun heq => hn (heq ▸ rfl)

theorem lookup_deleteFiles_removed (d : Dir ρ) (inputs : List SSTableMeta) (m : SSTableMeta)
    (hm : m ∈ inputs) (h : f.removal (.removeParquet m.seq) = false) :
    (deleteFiles f d inputs).parquet.lookup m.seq = none := by
  apply lookup_foldl_removed
  · intro st hst hn
    obtain ⟨m', _, hseq, rfl⟩ :=
      deleteSteps_parquetNo inputs st m.seq (List.mem_of_mem_filter hst) hn
    rw [hseq]
  · left
    refine List.mem_filter.mpr ⟨List.mem_flatMap.mpr ⟨m, hm, List.mem_cons_self⟩, ?_⟩
    rw [h]
    rfl

end Output

/-! ### The whole call -/

section Call
variable (layout : Layout ρ) (f : Faults ρ) (s : SignalPartition ρ)

theorem compactSignal_few (hlen : s.sstables.length < 2) :
    compactSignal layout f s = (.ok false, s) := if_pos hlen

theorem compactSignal_unread (hlen : ¬ s.sstables.length < 2)
    (hread : readInputs f s.dir s.sstables = []) :
    compactSignal layout f s =
      (.ok false, ⟨deleteFiles f s.dir s.sstables, [], s.nextSeq + 1⟩) := by
  rw [compactSignal, if_neg hlen, hread]
  rfl

def outputDir : Dir ρ :=
  (outputSteps layout s.nextSeq (readInputs f s.dir s.sstables).flatten).foldl Dir.apply
    (s.dir.apply (.writeParquet s.nextSeq []))

theorem compactSignal_merged (hlen : ¬ s.sstables.length < 2)
    (hread : readInputs f s.dir s.sstables ≠ [])
    (hsteps : ∀ p ∈ outputPlan layout s.nextSeq (readInputs f s.dir s.sstables),
      f.output p.1 = none) :
    compactSignal layout f s = (.ok true, ⟨deleteFiles f (outputDir layout f s) s.sstables,
      [⟨s.nextSeq, layout.zoneMap (readInputs f s.dir s.sstables).flatten⟩], s.nextSeq + 1⟩) := by
  have hne : ¬ (readInputs f s.dir s.sstables).isEmpty = true :=
    fun h => hread (List.isEmpty_iff.mp h)
  have hrun := runSteps_ok f s.dir _ hsteps
  rw [outputPlan_effects, List.foldl_cons] at hrun
  rw [compactSignal, if_neg hlen]
  simp only [if_neg hne, hrun]
  rfl

theorem compactSignal_failed (hlen : ¬ s.sstables.length < 2)
    (hread : readInputs f s.dir s.sstables ≠ [])
    (hsteps : ¬ ∀ p ∈ outputPlan layout s.nextSeq (readInputs f s.dir s.sstables),
      f.output p.1 = none) :
    ∃ d, compactSignal layout f s = (.err, ⟨d, [], s.nextSeq + 1⟩) := by
  have hne : ¬ (readInputs f s.dir s.sstables).isEmpty = true :=
    fun h => hread (List.isEmpty_iff.mp h)
  have hrun := (runSteps_fst f s.dir _).not.mpr hsteps
  rw [compactSignal, if_neg hlen]
  simp only [if_neg hne]
  split
  · exact ⟨_, rfl⟩
  · next h => exact absurd (congrArg Prod.fst h) hrun

theorem lookup_outputDir :
    (outputDir layout f s).parquet.lookup s.nextSeq =
      some (readInputs f s.dir s.sstables).flatten := AList.lookup_insert _

theorem merged_rows (zm : ZoneMap) (n : Nat) :
    (⟨deleteFiles f (outputDir layout f s) s.sstables, [⟨s.nextSeq, zm⟩], n⟩ :
      SignalPartition ρ).rows =
      (((deleteFiles f (outputDir layout f s) s.sstables).parquet.lookup s.nextSeq).getD [] :
        List ρ) := by
  rw [SignalPartition.rows, Dir.read, List.flatMap_cons, List.flatMap_nil, List.append_nil]

theorem losesNothing_merged (hlen : ¬ s.sstables.length < 2)
    (hread : readInputs f s.dir s.sstables ≠ [])
    (hsteps : ∀ p ∈ outputPlan layout s.nextSeq (readInputs f s.dir s.sstables),
      f.output p.1 = none) :
    LosesNothing layout f s ↔ AllRead f s ∧
      ∀ m ∈ s.sstables, m.seq = s.nextSeq → f.removal (.removeParquet m.seq) = true := by
  have hok : LosesNothing layout f s ↔ s.rows ≤
      (((deleteFiles f (outputDir layout f s) s.sstables).parquet.lookup s.nextSeq).getD [] :
        List ρ) := by
    rw [LosesNothing, compactSignal_merged layout f s hlen hread hsteps, merged_rows]
    exact and_iff_left fun herr => Outcome.noConfusion herr
  rw [hok]
  by_cases hkept : ∀ m ∈ s.sstables, m.seq = s.nextSeq → f.removal (.removeParquet m.seq) = true
  · rw [lookup_deleteFiles_kept f _ _ _ hkept, lookup_outputDir, Option.getD_some, rows_le_iff]
    exact (and_iff_left hkept).symm
  · -- an input has the number of the output, whose file goes with it
    refine iff_of_false ?_ fun h => hkept h.2
    push Not at hkept
    obtain ⟨m, hm, hseq, hremoved⟩ := hkept
    rw [← hseq, lookup_deleteFiles_removed f _ _ m hm (Bool.eq_false_of_not_eq_true hremoved)]
    exact fun hle => rows_ne_zero f s hread (Multiset.le_zero.mp hle)

theorem losesNothing_unread (hlen : ¬ s.sstables.length < 2)
    (hread : readInputs f s.dir s.sstables = []) :
    LosesNothing layout f s ↔ AllRead f s := by
  rw [LosesNothing, compactSignal_unread layout f s hlen hread, ← rows_le_iff, hread]
  exact and_iff_left fun herr => Outcome.noConfusion herr

theorem not_losesNothing_failed (hlen : ¬ s.sstables.length < 2)
    (hread : readInputs f s.dir s.sstables ≠ [])
    (hsteps : ¬ ∀ p ∈ outputPlan layout s.nextSeq (readInputs f s.dir s.sstables),
      f.output p.1 = none) : ¬ LosesNothing layout f s := by
  obtain ⟨d, hcall⟩ := compactSignal_failed layout f s hlen hread hsteps
  rw [LosesNothing, hcall]
  intro h
  have hnil : [] = s.sstables := h.2 rfl
  rw [← hnil] at hlen
  exact hlen (by decide)

theorem readInputs_none :
    (readInputs Faults.none s.dir s.sstables).flatten = s.dir.read s.sstables := by
  rw [readInputs_flatten]
  apply List.flatMap_congr
  intro m _
  exact (readInput_eq_iff Faults.none s.dir m).mpr fun _ _ _ => ⟨rfl, fun _ _ => rfl⟩

theorem deleteFiles_none (d : Dir ρ) (inputs : List SSTableMeta) :
    deleteFiles Faults.none d inputs = (deleteSteps inputs).foldl Dir.apply d :=
  congrArg (List.foldl Dir.apply d) (List.filter_true (deleteSteps inputs))

theorem outputDir_none : outputDir layout Faults.none s =
    (outputSteps layout s.nextSeq (s.dir.read s.sstables)).foldl Dir.apply s.dir := by
  rw [outputDir, readInputs_none]
  simp only [outputSteps, List.foldl_cons, List.foldl_nil, Dir.apply, AList.insert_insert]

theorem compactSignal_none : (compactSignal layout Faults.none s).2 = s.compact layout := by
  by_cases hlen : s.sstables.length < 2
  · rw [compactSignal_few layout Faults.none s hlen, SignalPartition.compact, if_pos hlen]
  rw [SignalPartition.compact, if_neg hlen, compactSteps]
  by_cases hread : readInputs Faults.none s.dir s.sstables = []
  · have hrows : s.dir.read s.sstables = [] := by
      rw [← readInputs_none, hread]
      rfl
    rw [compactSignal_unread layout Faults.none s hlen hread, deleteFiles_none, hrows]
    rfl
  · have hrows : ¬ (s.dir.read s.sstables).isEmpty = true := fun h =>
      rows_ne_zero Faults.none s hread (congrArg Multiset.ofList (List.isEmpty_iff.mp h))
    rw [compactSignal_merged layout Faults.none s hlen hread fun _ _ => rfl, deleteFiles_none,
      outputDir_none, readInputs_none, if_neg hrows, if_neg hrows, List.foldl_append]

theorem compaction_loses_nothing_iff :
    LosesNothing layout f s ↔
      s.sstables.length < 2 ∨ AllRead f s ∧ (s.rows = 0 ∨ OutputWritten layout f s) := by
  by_cases hlen : s.sstables.length < 2
  · refine iff_of_true ?_ (Or.inl hlen)
    rw [LosesNothing, compactSignal_few layout f s hlen]
    exact ⟨le_refl _, fun _ => rfl⟩
  rw [or_iff_right hlen]
  by_cases hread : readInputs f s.dir s.sstables = []
  · rw [losesNothing_unread layout f s hlen hread]
    refine ⟨fun hall => ⟨hall, Or.inl ?_⟩, And.left⟩
    have hle := (rows_le_iff f s).mpr hall
    rw [hread] at hle
    exact Multiset.le_zero.mp hle
  rw [or_iff_right (rows_ne_zero f s hread)]
  by_cases hsteps : ∀ p ∈ outputPlan layout s.nextSeq (readInputs f s.dir s.sstables),
      f.output p.1 = none
  · rw [losesNothing_merged layout f s hlen hread hsteps]
    exact and_congr_right fun _ => ⟨fun hkept => ⟨hsteps, hkept⟩, OutputWritten.kept⟩
  · exact iff_of_false (not_losesNothing_failed layout f s hlen hread hsteps)
      fun h => hsteps h.2.steps

end Call

/-! ### A pass over the signals -/

section Pass
variable (layout : Layout ρ) (trigger : Nat) (faults : SignalType → Faults ρ)

def passSignal (signal : SignalType) (s : SignalPartition ρ) : SignalPartition ρ :=
  if s.sstables.length ≥ trigger then (compactSignal layout (faults signal) s).2 else s

theorem compactAt_snd (acc : Nat × (SignalType → SignalPartition ρ)) (signal : SignalType) :
    (compactAt layout trigger faults acc signal).2 =
      Function.update acc.2 signal (passSignal layout trigger faults signal (acc.2 signal)) := by
  rw [compactAt, passSignal]
  split
  · rfl
  · rw [Function.update_eq_self]

theorem compactAll_snd (signals : List SignalType) (hnodup : signals.Nodup)
    (acc : Nat × (SignalType → SignalPartition ρ)) (signal : SignalType) :
    (signals.foldl (compactAt layout trigger faults) acc).2 signal =
      if signal ∈ signals then passSignal layout trigger faults signal (acc.2 signal)
      else acc.2 signal := by
  induction signals generalizing acc with
  | nil => rfl
  | cons first signals ih =>
    obtain ⟨hfirst, hrest⟩ := List.nodup_cons.mp hnodup
    rw [List.foldl_cons, ih hrest, compactAt_snd]
    by_cases heq : signal = first
    · subst heq
      rw [if_neg hfirst, if_pos List.mem_cons_self, Function.update_self]
    · rw [Function.update_of_ne heq]
      simp only [List.mem_cons, heq, false_or]

theorem compactPartition_snd (partition : SignalType → SignalPartition ρ) (signal : SignalType) :
    (compactPartition layout trigger faults partition).2 signal =
      passSignal layout trigger faults signal (partition signal) := by
  rw [compactPartition, compactAll_snd layout trigger faults _ (by decide)]
  exact if_pos (by cases signal <;> decide)

theorem compactPartition_rows_le (partition : SignalType → SignalPartition ρ)
    (h : ∀ signal, (partition signal).sstables.length ≥ trigger →
      LosesNothing layout (faults signal) (partition signal)) (signal : SignalType) :
    (partition signal).rows ≤
      ((compactPartition layout trigger faults partition).2 signal).rows := by
  rw [compactPartition_snd, passSignal]
  split
  · next htrigger => exact (h signal htrigger).1
  · exact le_refl _

end Pass

def twoTables : SignalPartition UInt64 :=
  ((SignalPartition.open Dir.empty).flush bareLayout [1]).flush bareLayout [2]

def noOutput : Faults UInt64 :=
  { Faults.none with output := fun step => match step with
      | .create => some []
      | _ => none }

def oneUnopenable : Faults UInt64 := { Faults.none with unopenable := fun n => n == 2 }

def noneReadable : Faults UInt64 := { Faults.none with unreadable := fun _ _ => true }

/-- An output that cannot be created leaves no table registered; a table that cannot be opened is
deleted with its row after a merge of the other; and with no batch read both are deleted. -/
theorem compaction_loses_rows :
    (¬ LosesNothing bareLayout noOutput twoTables ∧
      (compactSignal bareLayout noOutput twoTables).1 = .err ∧
      (compactSignal bareLayout noOutput twoTables).2.sstables = []) ∧
    (¬ LosesNothing bareLayout oneUnopenable twoTables ∧
      (compactSignal bareLayout oneUnopenable twoTables).1 = .ok true ∧
      twoTables.rows = {1, 2} ∧ (compactSignal bareLayout oneUnopenable twoTables).2.rows = {1}) ∧
    (¬ LosesNothing bareLayout noneReadable twoTables ∧
      (compactSignal bareLayout noneReadable twoTables).1 = .ok false ∧
      (compactSignal bareLayout noneReadable twoTables).2.rows = 0) := by
  have hrows : twoTables.rows = {1, 2} := by decide
  have hone : (compactSignal bareLayout oneUnopenable twoTables).2.rows = {1} := by decide
  have hnone : (compactSignal bareLayout noneReadable twoTables).2.rows = 0 := by decide
  refine ⟨⟨?_, by decide, by decide⟩, ⟨?_, by decide, hrows, hone⟩, ?_, by decide, hnone⟩
  · exact fun h => absurd (h.2 (by decide)) (by decide)
  · intro h
    rw [LosesNothing, hrows, hone] at h
    exact absurd h.1 (by decide)
  · intro h
    rw [LosesNothing, hrows, hnone] at h
    exact absurd h.1 (by decide)

end InfraLens.Tables
