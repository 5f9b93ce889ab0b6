import InfraLens.CompactionFaults
import InfraLens.Upkeep

/-! The compaction worker over all partitions (engine.rs compaction_worker; compaction.rs
compact_partition, compact_signal), while flushes go on and with faults of both. A flush and a
merge are each one step; in between the tables of a merge are in nobody's list. -/
namespace InfraLens.Tables
open LibRun Model

variable {ρ : Type}

/-! ### The model -/

/-- What the worker is at; it drains two tables or more. -/
inductive Task where
  | idle
  | due (key : UInt64) (sig : SignalType)
  | drained (key : UInt64) (sig : SignalType) (inputs : List SSTableMeta)
      (hlen : 2 ≤ inputs.length)
  | numbered (key : UInt64) (sig : SignalType) (inputs : List SSTableMeta) (out : Nat)
      (hlen : 2 ≤ inputs.length)

/-- The partitions, those in the engine's map, and the worker with the signals of this round that
it has not visited. -/
structure Workshop (ρ : Type) where
  tables : UInt64 → SignalType → SignalPartition ρ
  known : List UInt64
  visits : List (UInt64 × SignalType)
  task : Task
  closed : Bool

/-- An engine opened on directories with these files. A partition reads its directory when it is
first used; nobody changes the directory before. -/
def Workshop.open (dirs : UInt64 → SignalType → Dir ρ) : Workshop ρ :=
  ⟨fun key sig => SignalPartition.open (dirs key sig), [], [], .idle, false⟩

inductive WorkshopAct (ρ : Type) where
  | create (key : UInt64)
  | flush (key : UInt64) (sig : SignalType) (rows : List ρ) (failed : Option Nat)
  | close
  | tick
  | visit
  | drain
  | number
  | merge (f : Faults ρ)

/-- A failing step of the output changes the files of its own number only. -/
def Faults.confined (f : Faults ρ) (out : Nat) : Faults ρ :=
  { f with output := fun step => (f.output step).map (List.filter fun st => st.seq = out) }

/-- `flush_signal_*`: a flush that fails has taken a number and may have written some files. -/
def SignalPartition.tryFlush (layout : Layout ρ) (s : SignalPartition ρ) (rows : List ρ) :
    Option Nat → SignalPartition ρ
  | none => s.flush layout rows
  | some written =>
    { s with
      dir := ((flushSteps layout s.nextSeq rows).take written).foldl Dir.apply s.dir
      nextSeq := s.nextSeq + 1 }

/-- What `compact_signal` does once it has its inputs and its number. -/
def SignalPartition.merge (layout : Layout ρ) (s : SignalPartition ρ) (inputs : List SSTableMeta)
    (out : Nat) (f : Faults ρ) : SignalPartition ρ :=
  let merged := (compactSignal layout (f.confined out) ⟨s.dir, inputs, out⟩).2
  { s with dir := merged.dir, sstables := s.sstables ++ merged.sstables }

def Workshop.setTable (w : Workshop ρ) (key : UInt64) (sig : SignalType)
    (s : SignalPartition ρ) : Workshop ρ :=
  { w with tables := Function.update w.tables key (Function.update (w.tables key) sig s) }

section Step
variable (layout : Layout ρ) (trigger : Nat)

def Workshop.step (w : Workshop ρ) : WorkshopAct ρ → Option (Workshop ρ)
  | .create key => some { w with known := if key ∈ w.known then w.known else w.known ++ [key] }
  | .flush key sig rows failed =>
    if key ∈ w.known then
      some (w.setTable key sig ((w.tables key sig).tryFlush layout rows failed))
    else none
  | .close => some { w with closed := true }
  | .tick =>
    match w.task, w.visits, w.closed with
    | .idle, [], false =>
      some { w with
        visits := w.known.flatMap fun key => [(key, .log), (key, .metric), (key, .span)] }
    | _, _, _ => none
  | .visit =>
    match w.task, w.visits with
    | .idle, (key, sig) :: rest =>
      some { w with
        visits := rest
        task := if (w.tables key sig).sstables.length ≥ trigger then .due key sig else .idle }
    | _, _ => none
  | .drain =>
    match w.task with
    | .due key sig =>
      let s := w.tables key sig
      if hlen : 2 ≤ s.sstables.length then
        some { w.setTable key sig { s with sstables := [] } with
          task := .drained key sig s.sstables hlen }
      else some { w with task := .idle }
    | _ => none
  | .number =>
    match w.task with
    | .drained key sig inputs hlen =>
      let s := w.tables key sig
      some { w.setTable key sig { s with nextSeq := s.nextSeq + 1 } with
        task := .numbered key sig inputs s.nextSeq hlen }
    | _ => none
  | .merge f =>
    match w.task with
    | .numbered key sig inputs out _ =>
      some { w.setTable key sig ((w.tables key sig).merge layout inputs out f) with task := .idle }
    | _ => none

end Step

/-! ### One signal of one partition -/

/-- The tables of a signal with what the worker has taken from them. -/
structure Bench (ρ : Type) where
  table : SignalPartition ρ
  inputs : List SSTableMeta
  out : Option Nat

def Task.inputsAt (key : UInt64) (sig : SignalType) : Task → List SSTableMeta
  | .drained k s inputs _ => if k = key ∧ s = sig then inputs else []
  | .numbered k s inputs _ _ => if k = key ∧ s = sig then inputs else []
  | _ => []

def Task.outAt (key : UInt64) (sig : SignalType) : Task → Option Nat
  | .numbered k s _ out _ => if k = key ∧ s = sig then some out else none
  | _ => none

def Workshop.bench (w : Workshop ρ) (key : UInt64) (sig : SignalType) : Bench ρ :=
  ⟨w.tables key sig, w.task.inputsAt key sig, w.task.outAt key sig⟩

/-- The rows of the listed tables and of those in the worker's hands. -/
def Bench.rows (b : Bench ρ) : Multiset ρ :=
  (b.table.dir.read (b.table.sstables ++ b.inputs) : List ρ)

def WorkshopAct.flushed (key : UInt64) (sig : SignalType) : WorkshopAct ρ → Option (List ρ)
  | .flush k s rows none => if k = key ∧ s = sig then some rows else none
  | _ => none

def WorkshopAct.rowsTo (key : UInt64) (sig : SignalType) (a : WorkshopAct ρ) : Multiset ρ :=
  ((a.flushed key sig).getD [] : List ρ)

def WorkshopAct.tablesTo (key : UInt64) (sig : SignalType) (a : WorkshopAct ρ) : Nat :=
  if (a.flushed key sig).isSome then 1 else 0

def WorkshopAct.Faultless : WorkshopAct ρ → Prop
  | .merge f => f = Faults.none
  | _ => True

/-- All that a step can do to one signal; the rows of the table it flushes there. -/
inductive Moves (layout : Layout ρ) (b : Bench ρ) :
    Option (List ρ) → WorkshopAct ρ → Bench ρ → Prop
  | stay (a : WorkshopAct ρ) : Moves layout b none a b
  | flush (key : UInt64) (sig : SignalType) (rows : List ρ) :
      Moves layout b (some rows) (.flush key sig rows none)
        { b with table := b.table.flush layout rows }
  | fail (key : UInt64) (sig : SignalType) (rows : List ρ) (written : Nat) :
      Moves layout b none (.flush key sig rows (some written))
        { b with table := b.table.tryFlush layout rows (some written) }
  | drain (hin : b.inputs = []) (hout : b.out = none) :
      Moves layout b none .drain ⟨{ b.table with sstables := [] }, b.table.sstables, none⟩
  | number (hout : b.out = none) :
      Moves layout b none .number
        { b with table := { b.table with nextSeq := b.table.nextSeq + 1 }
                 out := some b.table.nextSeq }
  | merge (out : Nat) (f : Faults ρ) (hout : b.out = some out) (hlen : 2 ≤ b.inputs.length) :
      Moves layout b none (.merge f) ⟨b.table.merge layout b.inputs out f, [], none⟩

section Frame
variable (w : Workshop ρ) (key k : UInt64) (sig s : SignalType) (table : SignalPartition ρ)

theorem setTable_self : (w.setTable key sig table).tables key sig = table := by
  simp [Workshop.setTable]

theorem setTable_other (h : ¬ (key = k ∧ sig = s)) :
    (w.setTable key sig table).tables k s = w.tables k s := by
  by_cases hkey : key = k
  · subst hkey
    have hsig : s ≠ sig := fun he => h ⟨rfl, he.symm⟩
    simp [Workshop.setTable, Function.update_of_ne hsig]
  · simp [Workshop.setTable, Function.update_of_ne (Ne.symm hkey)]

def Task.Free (k : UInt64) (s : SignalType) : Task → Prop
  | .drained key sig _ _ => ¬ (key = k ∧ sig = s)
  | .numbered key sig _ _ _ => ¬ (key = k ∧ sig = s)
  | _ => True

theorem bench_free (h : w.task.Free k s) : w.bench k s = ⟨w.tables k s, [], none⟩ := by
  rw [Workshop.bench]
  cases htask : w.task with
  | idle => rfl
  | due key sig => rfl
  | drained key sig inputs hlen =>
    rw [htask] at h
    rw [Task.inputsAt, if_neg h]
    rfl
  | numbered key sig inputs out hlen =>
    rw [htask] at h
    rw [Task.inputsAt, Task.outAt, if_neg h, if_neg h]

theorem moves_free (layout : Layout ρ) (w' : Workshop ρ) (a : WorkshopAct ρ)
    (htables : w'.tables k s = w.tables k s) (h : w.task.Free k s) (h' : w'.task.Free k s) :
    Moves layout (w.bench k s) none a (w'.bench k s) := by
  rw [bench_free w k s h, bench_free w' k s h', htables]
  exact .stay a

end Frame

section Steps
variable (layout : Layout ρ) (trigger : Nat) (w w' : Workshop ρ) (key : UInt64) (sig : SignalType)

theorem moves_flush (k : UInt64) (s : SignalType) (rows : List ρ) (failed : Option Nat) :
    Moves layout (w.bench key sig) ((WorkshopAct.flush k s rows failed).flushed key sig)
      (.flush k s rows failed)
      ((w.setTable k s ((w.tables k s).tryFlush layout rows failed)).bench key sig) := by
  by_cases hat : k = key ∧ s = sig
  · obtain ⟨rfl, rfl⟩ := hat
    rw [Workshop.bench.eq_def (w.setTable _ _ _), setTable_self]
    cases failed with
    | none =>
      rw [WorkshopAct.flushed, if_pos ⟨rfl, rfl⟩]
      exact .flush (b := w.bench k s) k s rows
    | some written => exact .fail (b := w.bench k s) k s rows written
  · have hrows : (WorkshopAct.flush k s rows failed).flushed key sig = none := by
      cases failed with
      | none => rw [WorkshopAct.flushed, if_neg hat]
      | some written => rfl
    rw [Workshop.bench.eq_def (w.setTable _ _ _), setTable_other _ _ _ _ _ _ hat, hrows]
    exact .stay _

theorem moves_drain (k : UInt64) (s : SignalType) (htask : w.task = .due k s)
    (hlen : 2 ≤ (w.tables k s).sstables.length) :
    Moves layout (w.bench key sig) none .drain
      (Workshop.bench { w.setTable k s { w.tables k s with sstables := [] } with
        task := .drained k s (w.tables k s).sstables hlen } key sig) := by
  have hfree : w.task.Free key sig := by
    rw [htask]
    trivial
  by_cases hat : k = key ∧ s = sig
  · obtain ⟨rfl, rfl⟩ := hat
    rw [bench_free w k s hfree, Workshop.bench, setTable_self, Task.inputsAt, if_pos ⟨rfl, rfl⟩]
    exact .drain rfl rfl
  · exact moves_free w key sig layout _ _ (setTable_other w k key s sig _ hat) hfree hat

theorem moves_number (k : UInt64) (s : SignalType) (inputs : List SSTableMeta)
    (hlen : 2 ≤ inputs.length) (htask : w.task = .drained k s inputs hlen) :
    Moves layout (w.bench key sig) none .number
      (Workshop.bench { w.setTable k s { w.tables k s with nextSeq := (w.tables k s).nextSeq + 1 }
        with task := .numbered k s inputs (w.tables k s).nextSeq hlen } key sig) := by
  by_cases hat : k = key ∧ s = sig
  · obtain ⟨rfl, rfl⟩ := hat
    have hbench : w.bench k s = ⟨w.tables k s, inputs, none⟩ := by
      rw [Workshop.bench, htask, Task.inputsAt, if_pos ⟨rfl, rfl⟩]
      rfl
    rw [hbench, Workshop.bench, setTable_self, Task.inputsAt, Task.outAt, if_pos ⟨rfl, rfl⟩,
      if_pos ⟨rfl, rfl⟩]
    exact .number rfl
  · have hfree : w.task.Free key sig := by
      rw [htask]
      exact hat
    exact moves_free w key sig layout _ _ (setTable_other w k key s sig _ hat) hfree hat

theorem moves_merge (k : UInt64) (s : SignalType) (inputs : List SSTableMeta) (out : Nat)
    (hlen : 2 ≤ inputs.length) (htask : w.task = .numbered k s inputs out hlen) (f : Faults ρ) :
    Moves layout (w.bench key sig) none (.merge f)
      (Workshop.bench { w.setTable k s ((w.tables k s).merge layout inputs out f) with
        task := .idle } key sig) := by
  by_cases hat : k = key ∧ s = sig
  · obtain ⟨rfl, rfl⟩ := hat
    have hbench : w.bench k s = ⟨w.tables k s, inputs, some out⟩ := by
      rw [Workshop.bench, htask, Task.inputsAt, Task.outAt, if_pos ⟨rfl, rfl⟩, if_pos ⟨rfl, rfl⟩]
    rw [hbench, Workshop.bench, setTable_self]
    exact .merge out f rfl hlen
  · have hfree : w.task.Free key sig := by
      rw [htask]
      exact hat
    exact moves_free w key sig layout _ _ (setTable_other w k key s sig _ hat) hfree trivial

theorem moves_of_step (a : WorkshopAct ρ) (h : w.step layout trigger a = some w') :
    Moves layout (w.bench key sig) (a.flushed key sig) a (w'.bench key sig) := by
  cases a with
  | create k =>
    cases h
    exact .stay _
  | close =>
    cases h
    exact .stay _
  | flush k s rows failed =>
    rw [Workshop.step] at h
    split at h
    · cases h
      exact moves_flush layout w key sig k s rows failed
    · cases h
  | tick =>
    rw [Workshop.step] at h
    split at h
    · cases h
      exact .stay _
    · cases h
  | visit =>
    rw [Workshop.step] at h
    split at h
    · next k s rest htask hvisits =>
      have hfree : w.task.Free key sig := by
        rw [htask]
        trivial
      cases h
      refine moves_free w key sig layout _ _ rfl hfree ?_
      change Task.Free key sig (if _ then _ else _)
      split <;> trivial
    · cases h
  | drain =>
    rw [Workshop.step] at h
    split at h
    · next k s htask =>
      dsimp only at h
      split at h
      · next hlen =>
        cases h
        exact moves_drain layout w key sig k s htask hlen
      · have hfree : w.task.Free key sig := by
          rw [htask]
          trivial
        cases h
        exact moves_free w key sig layout _ _ rfl hfree trivial
    · cases h
  | number =>
    rw [Workshop.step] at h
    split at h
    · next k s inputs hlen htask =>
      cases h
      exact moves_number layout w key sig k s inputs hlen htask
    · cases h
  | merge f =>
    rw [Workshop.step] at h
    split at h
    · next k s inputs out hlen htask =>
      cases h
      exact moves_merge layout w key sig k s inputs out hlen htask f
    · cases h

end Steps

/-! ### One merge -/

section Merging
variable (layout : Layout ρ) (f : Faults ρ) (s : SignalPartition ρ)

/-- A merge lists one table or none, with no more rows than it had, and with all of them when
nothing fails. -/
theorem compactSignal_lists (hlen : 2 ≤ s.sstables.length) :
    ((compactSignal layout f s).2.sstables = [] ∨
      ∃ zm, (compactSignal layout f s).2.sstables = [⟨s.nextSeq, zm⟩]) ∧
    (s.nextSeq ∉ s.sstables.map SSTableMeta.seq →
      (compactSignal layout f s).2.rows ≤ s.rows ∧
      (f = Faults.none → (compactSignal layout f s).2.rows = s.rows)) := by
  have hfew : ¬ s.sstables.length < 2 := Nat.not_lt.mpr hlen
  have hnone : f = Faults.none →
      s.rows = ((readInputs f s.dir s.sstables).flatten : List ρ) := by
    rintro rfl
    rw [readInputs_none]
    rfl
  by_cases hread : readInputs f s.dir s.sstables = []
  · rw [compactSignal_unread layout f s hfew hread]
    refine ⟨.inl rfl, fun _ => ⟨Multiset.zero_le _, fun hf => ?_⟩⟩
    rw [hnone hf, hread]
    rfl
  by_cases hsteps : ∀ p ∈ outputPlan layout s.nextSeq (readInputs f s.dir s.sstables),
      f.output p.1 = none
  · rw [compactSignal_merged layout f s hfew hread hsteps]
    refine ⟨.inr ⟨_, rfl⟩, fun hfresh => ?_⟩
    have hkept : ∀ m ∈ s.sstables, m.seq = s.nextSeq → f.removal (.removeParquet m.seq) = true :=
      fun m hm he => absurd (List.mem_map.mpr ⟨m, hm, he⟩) hfresh
    rw [merged_rows, lookup_deleteFiles_kept f _ _ _ hkept, lookup_outputDir, Option.getD_some]
    refine ⟨?_, fun hf => (hnone hf).symm⟩
    exact Multiset.coe_le.mpr (readInputs_sublist f s.dir s.sstables).subperm
  · obtain ⟨d, hfailed⟩ := compactSignal_failed layout f s hfew hread hsteps
    rw [hfailed]
    refine ⟨.inl rfl, fun _ => ⟨Multiset.zero_le _, fun hf => absurd (fun p _ => ?_) hsteps⟩⟩
    rw [hf]
    rfl

theorem files_deleteFiles (d : Dir ρ) (inputs : List SSTableMeta) (n : Nat)
    (h : n ∉ inputs.map SSTableMeta.seq) : (deleteFiles f d inputs).files n = d.files n := by
  apply files_foldl
  intro st hst he
  obtain ⟨m, hm, hin⟩ := List.mem_flatMap.mp (List.mem_of_mem_filter hst)
  have hseq : st.seq = m.seq := by
    simp only [removeSteps, List.mem_cons, List.not_mem_nil, or_false] at hin
    obtain rfl | rfl | rfl := hin <;> rfl
  exact h (he.trans hseq ▸ List.mem_map_of_mem hm)

theorem outputPlan_seq (out : Nat) (batches : List (List ρ)) :
    ∀ p ∈ outputPlan layout out batches, ∀ st ∈ p.2, st.seq = out := by
  intro p hp st hst
  simp only [outputPlan, List.mem_append, List.mem_cons, List.not_mem_nil, or_false,
    List.mem_map] at hp
  obtain ((rfl | rfl) | ⟨k, _, rfl⟩) | rfl | rfl | rfl | rfl | rfl := hp
  all_goals
    simp only [List.mem_singleton, List.not_mem_nil] at hst
    try rw [hst]
    try rfl

theorem files_runSteps (out n : Nat) (hn : n ≠ out) (d : Dir ρ)
    (plan : List (OutputStep × List (FsStep ρ))) (hplan : ∀ p ∈ plan, ∀ st ∈ p.2, st.seq = out) :
    (runSteps (f.confined out) d plan).2.files n = d.files n := by
  induction plan generalizing d with
  | nil => rfl
  | cons p plan ih =>
    obtain ⟨hp, hrest⟩ := List.forall_mem_cons.mp hplan
    rw [runSteps]
    cases hleft : (f.confined out).output p.1 with
    | none =>
      change (runSteps (f.confined out) (p.2.foldl Dir.apply d) plan).2.files n = _
      rw [ih _ hrest, files_foldl _ _ _ fun st hst he => hn (he.trans (hp st hst))]
    | some left =>
      obtain ⟨all, _, rfl⟩ := Option.map_eq_some_iff.mp hleft
      refine files_foldl _ _ _ fun st hst he => hn (he.trans ?_)
      exact of_decide_eq_true (List.mem_filter.mp hst).2

theorem files_compactSignal (n : Nat) (hn : n ≠ s.nextSeq)
    (hin : n ∉ s.sstables.map SSTableMeta.seq) :
    (compactSignal layout (f.confined s.nextSeq) s).2.dir.files n = s.dir.files n := by
  have hsteps := files_runSteps f s.nextSeq n hn s.dir _
    (outputPlan_seq layout s.nextSeq (readInputs (f.confined s.nextSeq) s.dir s.sstables))
  rw [compactSignal]
  split
  · rfl
  dsimp only
  split
  · exact files_deleteFiles _ s.dir s.sstables n hin
  split
  · next d hrun =>
    rw [hrun] at hsteps
    exact hsteps
  · next d hrun =>
    rw [hrun] at hsteps
    exact (files_deleteFiles _ d s.sstables n hin).trans hsteps

end Merging

/-! ### The rows of one signal -/

/-- Different numbers that have been taken. -/
structure Taken (nums : List Nat) (next : Nat) : Prop where
  distinct : nums.Nodup
  below : ∀ n ∈ nums, n < next

def Bench.numbers (b : Bench ρ) : List Nat :=
  (b.table.sstables ++ b.inputs).map SSTableMeta.seq

/-- The numbers of the tables are taken, and so is the number of the output, which is another. -/
structure Bench.Numbered (b : Bench ρ) : Prop where
  taken : Taken b.numbers b.table.nextSeq
  out : ∀ n ∈ b.out, n < b.table.nextSeq ∧ n ∉ b.numbers

theorem Taken.mono {nums : List Nat} {next next' : Nat} (h : Taken nums next)
    (hle : next ≤ next') : Taken nums next' :=
  ⟨h.distinct, fun n hn => Nat.lt_of_lt_of_le (h.below n hn) hle⟩

theorem Taken.insert {xs ys : List Nat} {n next : Nat} (h : Taken (xs ++ ys) next)
    (hn : n < next) (hnew : n ∉ xs ++ ys) : Taken (xs ++ n :: ys) next := by
  refine ⟨List.nodup_middle.mpr (List.nodup_cons.mpr ⟨hnew, h.distinct⟩), ?_⟩
  intro k hk
  rw [List.mem_append, List.mem_cons, or_left_comm, ← List.mem_append] at hk
  obtain rfl | hk := hk
  · exact hn
  · exact h.below k hk

theorem Taken.left {xs ys : List Nat} {next : Nat} (h : Taken (xs ++ ys) next) : Taken xs next :=
  ⟨h.distinct.of_append_left, fun n hn => h.below n (List.mem_append_left _ hn)⟩

theorem read_of_files (d d' : Dir ρ) (metas : List SSTableMeta)
    (h : ∀ n ∈ metas.map SSTableMeta.seq, d'.files n = d.files n) :
    d'.read metas = d.read metas :=
  read_congr d d' metas fun m hm => congrArg Prod.fst (h m.seq (List.mem_map_of_mem hm))

section Flush
variable (layout : Layout ρ) (s : SignalPartition ρ) (rows : List ρ)

theorem flushSteps_seq (st : FsStep ρ) (hst : st ∈ flushSteps layout s.nextSeq rows) :
    st.seq = s.nextSeq := by
  simp only [flushSteps, List.mem_cons, List.not_mem_nil, or_false] at hst
  obtain rfl | rfl | rfl := hst <;> rfl

theorem files_tryFlush (failed : Option Nat) (n : Nat) (hn : n < s.nextSeq) :
    (s.tryFlush layout rows failed).dir.files n = s.dir.files n := by
  have hne : ∀ st ∈ flushSteps layout s.nextSeq rows, n ≠ st.seq := by
    intro st hst
    rw [flushSteps_seq layout s rows st hst]
    exact Nat.ne_of_lt hn
  cases failed with
  | none => exact files_foldl _ _ _ hne
  | some written => exact files_foldl _ _ _ fun st hst => hne st (List.mem_of_mem_take hst)

theorem read_flush_new :
    (s.flush layout rows).dir.read [⟨s.nextSeq, layout.zoneMap rows⟩] = rows := by
  have hfile : (s.flush layout rows).dir.parquet.lookup s.nextSeq = some rows := by
    simp only [SignalPartition.flush, flushSteps, List.foldl_cons, List.foldl_nil, Dir.apply,
      AList.lookup_insert]
  simp [Dir.read, hfile]

end Flush

section Moves
variable (layout : Layout ρ) (b b' : Bench ρ) (o : Option (List ρ)) (a : WorkshopAct ρ)

theorem Bench.numbers_eq :
    b.numbers = b.table.sstables.map SSTableMeta.seq ++ b.inputs.map SSTableMeta.seq :=
  List.map_append

theorem Bench.Numbered.apart (hb : b.Numbered) (out : Nat) (hout : b.out = some out) (n : Nat)
    (hn : n ∈ b.table.sstables.map SSTableMeta.seq) :
    n ≠ out ∧ n ∉ b.inputs.map SSTableMeta.seq := by
  have hdistinct := hb.taken.distinct
  have hnew := (hb.out out hout).2
  rw [b.numbers_eq] at hdistinct hnew
  refine ⟨?_, fun hin => (List.nodup_append.mp hdistinct).2.2 n hn n hin rfl⟩
  rintro rfl
  exact hnew (List.mem_append_left _ hn)

theorem Bench.Numbered.fresh (hb : b.Numbered) (out : Nat) (hout : b.out = some out) :
    out ∉ b.inputs.map SSTableMeta.seq := by
  have hnew := (hb.out out hout).2
  rw [b.numbers_eq] at hnew
  exact fun hin => hnew (List.mem_append_right _ hin)

theorem numbered_merge (hb : b.Numbered) (out : Nat) (f : Faults ρ) (hout : b.out = some out)
    (hlen : 2 ≤ b.inputs.length) :
    (⟨b.table.merge layout b.inputs out f, [], none⟩ : Bench ρ).Numbered := by
  obtain ⟨hlists, -⟩ := compactSignal_lists layout (f.confined out)
    ⟨b.table.dir, b.inputs, out⟩ hlen
  have htaken := hb.taken
  rw [b.numbers_eq] at htaken
  refine ⟨?_, nofun⟩
  rw [Bench.numbers, List.append_nil, SignalPartition.merge, List.map_append]
  obtain hnil | ⟨zm, hone⟩ := hlists
  · rw [hnil, List.map_nil, List.append_nil]
    exact htaken.left
  · have hleft : Taken (b.table.sstables.map SSTableMeta.seq ++ []) b.table.nextSeq := by
      rw [List.append_nil]
      exact htaken.left
    rw [hone]
    refine hleft.insert (hb.out out hout).1 ?_
    rw [List.append_nil]
    exact fun hin => (hb.apart b out hout out hin).1 rfl

theorem numbered_flush (hb : b.Numbered) (rows : List ρ) :
    ({ b with table := b.table.flush layout rows } : Bench ρ).Numbered := by
  have hnumbers : ({ b with table := b.table.flush layout rows } : Bench ρ).numbers =
      b.table.sstables.map SSTableMeta.seq ++ b.table.nextSeq :: b.inputs.map SSTableMeta.seq := by
    rw [Bench.numbers_eq]
    simp [SignalPartition.flush]
  have htaken := hb.taken
  have hout := hb.out
  rw [b.numbers_eq] at htaken hout
  refine ⟨?_, fun n hn => ⟨Nat.lt_succ_of_lt (hout n hn).1, ?_⟩⟩
  · rw [hnumbers]
    refine (htaken.mono (Nat.le_succ _)).insert (Nat.lt_succ_self _) ?_
    exact fun hin => Nat.lt_irrefl _ (htaken.below _ hin)
  · rw [hnumbers, List.mem_append, List.mem_cons, or_left_comm, ← List.mem_append, not_or]
    exact ⟨Nat.ne_of_lt (hout n hn).1, (hout n hn).2⟩

theorem numbered_moves (hb : b.Numbered) (h : Moves layout b o a b') : b'.Numbered := by
  cases h with
  | stay => exact hb
  | flush key sig rows => exact numbered_flush layout b hb rows
  | fail key sig rows written =>
    exact ⟨hb.taken.mono (Nat.le_succ _),
      fun n hn => ⟨Nat.lt_succ_of_lt (hb.out n hn).1, (hb.out n hn).2⟩⟩
  | drain hin hout =>
    have htaken := hb.taken
    rw [Bench.numbers, hin, List.append_nil] at htaken
    exact ⟨htaken, nofun⟩
  | number hout =>
    refine ⟨hb.taken.mono (Nat.le_succ _), ?_⟩
    rintro n ⟨⟩
    exact ⟨Nat.lt_succ_self _, fun hn => Nat.lt_irrefl _ (hb.taken.below _ hn)⟩
  | merge out f hout hlen => exact numbered_merge layout b hb out f hout hlen

theorem Bench.rows_eq :
    b.rows = (b.table.dir.read b.table.sstables : Multiset ρ) + b.table.dir.read b.inputs := by
  rw [Bench.rows, read_append, Multiset.coe_add]

theorem read_tryFlush (hb : b.Numbered) (rows : List ρ) (failed : Option Nat)
    (metas : List SSTableMeta) (hin : ∀ m ∈ metas, m ∈ b.table.sstables ++ b.inputs) :
    (b.table.tryFlush layout rows failed).dir.read metas = b.table.dir.read metas := by
  refine read_of_files _ _ metas fun n hn => files_tryFlush layout b.table rows failed n ?_
  obtain ⟨m, hm, rfl⟩ := List.mem_map.mp hn
  exact hb.taken.below _ (List.mem_map_of_mem (hin m hm))

theorem rows_flush_bench (hb : b.Numbered) (rows : List ρ) :
    ({ b with table := b.table.flush layout rows } : Bench ρ).rows = b.rows + rows := by
  have hold := read_tryFlush layout b hb rows none b.table.sstables
    fun m hm => List.mem_append_left _ hm
  have hinputs := read_tryFlush layout b hb rows none b.inputs
    fun m hm => List.mem_append_right _ hm
  rw [Bench.rows_eq, Bench.rows_eq]
  change ((b.table.flush layout rows).dir.read
    (b.table.sstables ++ [⟨b.table.nextSeq, layout.zoneMap rows⟩]) : Multiset ρ) +
      (b.table.flush layout rows).dir.read b.inputs = _
  rw [read_append, read_flush_new, ← Multiset.coe_add]
  rw [show (b.table.flush layout rows).dir.read b.table.sstables = _ from hold,
    show (b.table.flush layout rows).dir.read b.inputs = _ from hinputs]
  exact add_right_comm _ _ _

theorem rows_merge (hb : b.Numbered) (out : Nat) (f : Faults ρ) (hout : b.out = some out)
    (hlen : 2 ≤ b.inputs.length) :
    (⟨b.table.merge layout b.inputs out f, [], none⟩ : Bench ρ).rows ≤ b.rows ∧
      (f = Faults.none →
        (⟨b.table.merge layout b.inputs out f, [], none⟩ : Bench ρ).rows = b.rows) := by
  obtain ⟨hle, hnone⟩ := (compactSignal_lists layout (f.confined out)
    ⟨b.table.dir, b.inputs, out⟩ hlen).2 (hb.fresh b out hout)
  have hrest : (compactSignal layout (f.confined out) ⟨b.table.dir, b.inputs, out⟩).2.dir.read
      b.table.sstables = b.table.dir.read b.table.sstables := by
    refine read_of_files _ _ _ fun n hn => ?_
    obtain ⟨hne, hin⟩ := hb.apart b out hout n hn
    exact files_compactSignal layout f ⟨b.table.dir, b.inputs, out⟩ n hne hin
  have hrows : (⟨b.table.merge layout b.inputs out f, [], none⟩ : Bench ρ).rows =
      (b.table.dir.read b.table.sstables : Multiset ρ) +
        (compactSignal layout (f.confined out) ⟨b.table.dir, b.inputs, out⟩).2.rows := by
    rw [Bench.rows, List.append_nil]
    simp only [SignalPartition.merge]
    rw [read_append, hrest, ← Multiset.coe_add]
    rfl
  rw [hrows, b.rows_eq]
  refine ⟨add_le_add_right hle _, ?_⟩
  rintro rfl
  rw [hnone rfl]
  rfl

theorem rows_moves (hb : b.Numbered) (h : Moves layout b o a b') :
    b'.rows ≤ b.rows + (o.getD [] : List ρ) ∧
      (a.Faultless → b'.rows = b.rows + (o.getD [] : List ρ)) := by
  have hnone : b.rows + ((none : Option (List ρ)).getD [] : List ρ) = b.rows := add_zero _
  cases h with
  | stay =>
    rw [hnone]
    exact ⟨le_refl _, fun _ => rfl⟩
  | flush key sig rows =>
    rw [rows_flush_bench layout b hb rows]
    exact ⟨le_refl _, fun _ => rfl⟩
  | fail key sig rows written =>
    have hsame := read_tryFlush layout b hb rows (some written) _ fun m hm => hm
    rw [hnone]
    exact ⟨le_of_eq (congrArg Multiset.ofList hsame), fun _ => congrArg Multiset.ofList hsame⟩
  | drain hin hout =>
    have hsame : (⟨{ b.table with sstables := [] }, b.table.sstables, none⟩ : Bench ρ).rows =
        b.rows := by
      rw [Bench.rows, Bench.rows, hin, List.append_nil, List.nil_append]
    rw [hnone, hsame]
    exact ⟨le_refl _, fun _ => rfl⟩
  | number hout =>
    rw [hnone]
    exact ⟨le_refl _, fun _ => rfl⟩
  | merge out f hout hlen =>
    rw [hnone]
    exact rows_merge layout b hb out f hout hlen

end Moves

/-! ### Whole runs -/

section Runs
variable (layout : Layout ρ) (trigger : Nat) (dirs : UInt64 → SignalType → Dir ρ)
  (key : UInt64) (sig : SignalType)

omit layout trigger in
theorem numbered_open : ((Workshop.open dirs).bench key sig).Numbered := by
  have hseqs := open_seqs (dirs key sig)
  have hnumbers : ((Workshop.open dirs).bench key sig).numbers =
      (SignalPartition.open (dirs key sig)).sstables.map SSTableMeta.seq :=
    congrArg (List.map SSTableMeta.seq) (List.append_nil _)
  refine ⟨⟨?_, ?_⟩, nofun⟩
  · rw [hnumbers, hseqs.nodup_iff]
    exact (dirs key sig).zonemap.keys_nodup
  · intro n hn
    rw [hnumbers] at hn
    exact open_nextSeq (dirs key sig) n (hseqs.mem_iff.mp hn)

def written (acts : List (WorkshopAct ρ)) : Multiset ρ :=
  (SignalPartition.open (dirs key sig)).rows + (acts.map (WorkshopAct.rowsTo key sig)).sum

/-- Whatever fails, the tables of a signal never hold a row more than was written to it, nor one
twice; and they hold every row while no merge has a fault. Between its drain and its end a merge
holds the rows of its inputs. -/
theorem worker_keeps_rows (acts : List (WorkshopAct ρ)) (w : Workshop ρ)
    (h : run (Workshop.step layout trigger) (Workshop.open dirs) acts = some w) :
    (w.bench key sig).rows ≤ written dirs key sig acts ∧
    ((∀ a ∈ acts, a.Faultless) → (w.bench key sig).rows = written dirs key sig acts) ∧
    (w.task.Free key sig → (w.tables key sig).rows = (w.bench key sig).rows) := by
  have hstart : ((Workshop.open dirs).bench key sig).rows =
      (SignalPartition.open (dirs key sig)).rows := by
    rw [Bench.rows, Workshop.bench]
    exact congrArg (fun l : List SSTableMeta => ((dirs key sig).read l : Multiset ρ))
      (List.append_nil _)
  refine ⟨?_, fun hok => ?_, fun hfree => ?_⟩
  · refine (run_account _ (fun _ => True) (WorkshopAct.rowsTo key sig)
      (fun u m => (u.bench key sig).Numbered ∧ (u.bench key sig).rows ≤ m) ?_ acts
      (Workshop.open dirs) w _ ⟨numbered_open dirs key sig, le_of_eq hstart⟩
      (fun _ _ => trivial) h).2
    rintro u a v m ⟨hnum, hle⟩ - hstep
    have hmoves := moves_of_step layout trigger u v key sig a hstep
    exact ⟨numbered_moves layout _ _ _ a hnum hmoves,
      (rows_moves layout _ _ _ a hnum hmoves).1.trans (add_le_add_left hle _)⟩
  · refine (run_account _ WorkshopAct.Faultless (WorkshopAct.rowsTo key sig)
      (fun u m => (u.bench key sig).Numbered ∧ (u.bench key sig).rows = m) ?_ acts
      (Workshop.open dirs) w _ ⟨numbered_open dirs key sig, hstart⟩ hok h).2
    rintro u a v m ⟨hnum, rfl⟩ ha hstep
    have hmoves := moves_of_step layout trigger u v key sig a hstep
    exact ⟨numbered_moves layout _ _ _ a hnum hmoves, (rows_moves layout _ _ _ a hnum hmoves).2 ha⟩
  · rw [bench_free w key sig hfree, Bench.rows, List.append_nil]
    rfl

end Runs

/-! Two tables of logs, and a round in which a third is flushed while they are merged. -/

def beforeRound : List (WorkshopAct UInt64) :=
  [.create 0, .flush 0 .log [1] none, .flush 0 .log [2] none]

def busyRound (f : Faults UInt64) : List (WorkshopAct UInt64) :=
  [.visit, .drain, .flush 0 .log [3] none, .number, .merge f, .visit, .visit]

theorem beforeRound_runs (f : Faults UInt64) : ∃ w,
    run (Workshop.step bareLayout 2) (Workshop.open fun _ _ => Dir.empty)
      (beforeRound ++ .tick :: busyRound f) = some w ∧ w.task = .idle :=
  ⟨_, rfl, rfl⟩

theorem busyRound_runs (f : Faults UInt64) : ∃ w w',
    run (Workshop.step bareLayout 2) (Workshop.open fun _ _ => Dir.empty) beforeRound = some w ∧
    0 ∈ w.known ∧
    run (Workshop.step bareLayout 2) w (.tick :: busyRound f) = some w' ∧
    w'.task = .idle ∧ w'.visits = [] :=
  ⟨_, _, rfl, by decide, rfl, rfl, rfl⟩

theorem worker_keeps_rows_busy : ∃ w,
    run (Workshop.step bareLayout 2) (Workshop.open fun _ _ => Dir.empty)
      (beforeRound ++ .tick :: busyRound Faults.none) = some w ∧
    (w.tables 0 .log).rows = {1, 2, 3} := by
  obtain ⟨w, hrun, hidle⟩ := beforeRound_runs Faults.none
  obtain ⟨-, hall, hfree⟩ := worker_keeps_rows bareLayout 2 (fun _ _ => Dir.empty) 0 .log _ w hrun
  refine ⟨w, hrun, ?_⟩
  rw [hfree (by rw [hidle]; trivial), hall ?_]
  · decide
  · intro a ha
    simp only [beforeRound, busyRound, List.cons_append, List.nil_append, List.mem_cons,
      List.not_mem_nil, or_false] at ha
    casesm* _ ∨ _
    all_goals
      subst ha
      trivial

/-! ### How many tables there are -/

/-- The listed tables, and one for what a merge will list. -/
def Bench.count (b : Bench ρ) : Nat :=
  b.table.sstables.length + if b.inputs.isEmpty then 0 else 1

theorem length_merge (layout : Layout ρ) (s : SignalPartition ρ) (inputs : List SSTableMeta)
    (out : Nat) (f : Faults ρ) (hlen : 2 ≤ inputs.length) :
    (s.merge layout inputs out f).sstables.length ≤ s.sstables.length + 1 := by
  obtain ⟨hlists, -⟩ := compactSignal_lists layout (f.confined out) ⟨s.dir, inputs, out⟩ hlen
  rw [SignalPartition.merge, List.length_append]
  obtain hnil | ⟨zm, hone⟩ := hlists
  · rw [hnil]
    exact Nat.le_succ _
  · rw [hone]
    exact Nat.le_refl _

theorem count_moves (layout : Layout ρ) (b b' : Bench ρ) (o : Option (List ρ))
    (a : WorkshopAct ρ) (h : Moves layout b o a b') :
    b'.count ≤ b.count + if o.isSome then 1 else 0 := by
  cases h with
  | stay => exact Nat.le_refl _
  | flush key sig rows =>
    simp only [Bench.count, SignalPartition.flush, List.length_append, List.length_singleton,
      Option.isSome_some, if_true]
    omega
  | fail key sig rows written => exact Nat.le_refl _
  | drain hin hout =>
    rw [Bench.count, Bench.count, hin]
    cases b.table.sstables with
    | nil => exact Nat.le_refl _
    | cons m ms => simp
  | number hout => exact Nat.le_refl _
  | merge out f hout hlen =>
    have hmerge := length_merge layout b.table b.inputs out f hlen
    have hne : b.inputs.isEmpty = false := by
      cases hin : b.inputs with
      | nil => rw [hin] at hlen; exact absurd hlen (by decide)
      | cons m ms => rfl
    rw [Bench.count, Bench.count, hne]
    exact hmerge

section Count
variable (layout : Layout ρ) (trigger : Nat) (key : UInt64) (sig : SignalType)

/-- The worker has yet to look at a signal in this round, or has found that it is due. -/
def Workshop.Pending (w : Workshop ρ) : Prop := (key, sig) ∈ w.visits ∨ w.task = .due key sig

/-- What is not pending is within the bound, up to the tables flushed since. -/
def Bounded (w : Workshop ρ) (n : Nat) : Prop :=
  w.Pending key sig ∨ (w.bench key sig).count ≤ max (trigger - 1) 1 + n

/-- A signal stays pending until the worker finds it small or drains it. -/
theorem pending_step (w w' : Workshop ρ) (a : WorkshopAct ρ) (hw : w.Pending key sig)
    (h : w.step layout trigger a = some w') :
    w'.Pending key sig ∨ (w'.bench key sig).count ≤ max (trigger - 1) 1 := by
  cases a with
  | create k =>
    cases h
    exact .inl hw
  | close =>
    cases h
    exact .inl hw
  | flush k s rows failed =>
    rw [Workshop.step] at h
    split at h
    · cases h
      exact .inl hw
    · cases h
  | tick =>
    rw [Workshop.step] at h
    split at h
    · next htask hvisits _ =>
      rw [Workshop.Pending, htask, hvisits] at hw
      simp at hw
    · cases h
  | visit =>
    rw [Workshop.step] at h
    split at h
    · next k s rest htask hvisits =>
      cases h
      rw [Workshop.Pending, htask, hvisits] at hw
      obtain hmem := hw.resolve_right nofun
      obtain heq | hrest := List.mem_cons.mp hmem
      · cases heq
        by_cases hdue : (w.tables key sig).sstables.length ≥ trigger
        · exact .inl (.inr (if_pos hdue))
        · right
          rw [if_neg hdue, Bench.count]
          change (w.tables key sig).sstables.length + 0 ≤ _
          omega
      · exact .inl (.inl hrest)
    · cases h
  | drain =>
    rw [Workshop.step] at h
    split at h
    · next k s htask =>
      dsimp only at h
      by_cases hat : k = key ∧ s = sig
      · obtain ⟨rfl, rfl⟩ := hat
        right
        split at h
        · next hlen =>
          cases h
          rw [Bench.count, Workshop.bench, setTable_self, Task.inputsAt, if_pos ⟨rfl, rfl⟩]
          change 0 + (if _ then 0 else 1) ≤ _
          split <;> omega
        · next hlen =>
          cases h
          change (w.tables k s).sstables.length + 0 ≤ _
          omega
      · left
        left
        have hvisits : (key, sig) ∈ w.visits := by
          refine hw.resolve_right fun hdue => hat ?_
          rw [htask] at hdue
          cases hdue
          exact ⟨rfl, rfl⟩
        split at h
        all_goals
          cases h
          exact hvisits
    · cases h
  | number =>
    rw [Workshop.step] at h
    split at h
    · next k s inputs hlen htask =>
      rw [Workshop.Pending, htask] at hw
      cases h
      exact .inl (.inl (hw.resolve_right nofun))
    · cases h
  | merge f =>
    rw [Workshop.step] at h
    split at h
    · next k s inputs out hlen htask =>
      rw [Workshop.Pending, htask] at hw
      cases h
      exact .inl (.inl (hw.resolve_right nofun))
    · cases h

theorem bounded_step (w w' : Workshop ρ) (a : WorkshopAct ρ) (n : Nat)
    (hw : Bounded trigger key sig w n) (h : w.step layout trigger a = some w') :
    Bounded trigger key sig w' (n + a.tablesTo key sig) := by
  obtain hpending | hcount := hw
  · refine (pending_step layout trigger key sig w w' a hpending h).imp_right fun hle => ?_
    exact hle.trans (Nat.le_add_right _ _)
  · right
    have hmoves := count_moves layout _ _ _ a (moves_of_step layout trigger w w' key sig a h)
    rw [← Nat.add_assoc]
    exact hmoves.trans (Nat.add_le_add_right hcount _)

/-- When the worker has ended a round, a signal of a partition it knew at the start of the round
has at most the tables below the trigger, or one, and those flushed since. -/
theorem round_bounds_tables (acts : List (WorkshopAct ρ)) (w w' : Workshop ρ)
    (h : run (Workshop.step layout trigger) w (.tick :: acts) = some w') (hkey : key ∈ w.known)
    (hidle : w'.task = .idle) (hvisits : w'.visits = []) :
    (w'.tables key sig).sstables.length ≤
      max (trigger - 1) 1 + (acts.map (WorkshopAct.tablesTo key sig)).sum := by
  obtain ⟨u, htick, hrun⟩ := run_cons _ w _ acts w' h
  have hpending : u.Pending key sig := by
    rw [Workshop.step] at htick
    split at htick
    · cases htick
      refine .inl (List.mem_flatMap.mpr ⟨key, hkey, ?_⟩)
      cases sig <;> simp
    · cases htick
  have hbounded := run_account _ (fun _ => True) (WorkshopAct.tablesTo key sig)
    (Bounded trigger key sig) (fun s a t m hs _ hst =>
      bounded_step layout trigger key sig s t a m hs hst)
    acts u w' 0 (.inl hpending) (fun _ _ => trivial) hrun
  rw [Nat.zero_add] at hbounded
  obtain hmem | hcount := hbounded
  · rw [Workshop.Pending, hidle, hvisits] at hmem
    simp at hmem
  · exact (Nat.le_add_right _ _).trans hcount

end Count

theorem round_bounds_tables_busy : ∃ w w',
    run (Workshop.step bareLayout 2) (Workshop.open fun _ _ => Dir.empty) beforeRound = some w ∧
    run (Workshop.step bareLayout 2) w (.tick :: busyRound noOutput) = some w' ∧
    (w'.tables 0 .log).sstables.length ≤ 2 := by
  obtain ⟨w, w', hbefore, hkey, hrun, hidle, hvisits⟩ := busyRound_runs noOutput
  exact ⟨w, w', hbefore, hrun, round_bounds_tables bareLayout 2 0 .log (busyRound noOutput) w w'
    hrun hkey hidle hvisits⟩

end InfraLens.Tables
