import InfraLens.CrashConsistency
import InfraLens.Model

/-! The partitions the engine knows (engine.rs): they are opened by writes, and a new
engine on the same directory knows none. -/
namespace InfraLens.Tables
open LibRun Model

variable {ρ : Type}

/-- The tables of every partition and signal, with the files of the data directory, and
the keys of the partitions the engine has opened. -/
structure Store (ρ : Type) where
  tables : UInt64 → SignalType → SignalPartition ρ
  known : List UInt64

/-- `StorageEngine::open` on an empty data directory. -/
def Store.empty : Store ρ := ⟨fun _ _ => SignalPartition.open Dir.empty, []⟩

/-- `get_or_create_partition`: the first use of a key scans the partition's directories. -/
def Store.touch (s : Store ρ) (key : UInt64) : Store ρ :=
  if key ∈ s.known then s
  else
    { tables := Function.update s.tables key fun sig =>
        SignalPartition.open (s.tables key sig).dir
      known := key :: s.known }

/-- `StorageEngine::open` on the directory another engine has left: the map of partitions
starts out empty. -/
def Store.restart (s : Store ρ) : Store ρ := { s with known := [] }

/-- `sstable_paths_for_signal(sig, [])`, a path given by its partition and number. -/
def Store.paths (s : Store ρ) (sig : SignalType) : List (UInt64 × Nat) :=
  s.known.flatMap fun key => (s.tables key sig).sstables.map fun m => (key, m.seq)

inductive Deed (ρ : Type) where
  | write (key : UInt64)
  | flush (key : UInt64) (sig : SignalType) (rows : List ρ)
  | compact (key : UInt64) (sig : SignalType)
  | restart

def Store.setTable (s : Store ρ) (key : UInt64) (sig : SignalType) (p : SignalPartition ρ) :
    Store ρ :=
  { s with tables := Function.update s.tables key (Function.update (s.tables key) sig p) }

/-- Flushes and compactions work on partitions the engine knows. -/
def deed (layout : Layout ρ) (s : Store ρ) : Deed ρ → Option (Store ρ)
  | .write key => some (s.touch key)
  | .flush key sig rows =>
    if key ∈ s.known then some (s.setTable key sig ((s.tables key sig).flush layout rows))
    else none
  | .compact key sig =>
    if key ∈ s.known then some (s.setTable key sig ((s.tables key sig).compact layout))
    else none
  | .restart => some s.restart

def AllSound (s : Store ρ) : Prop := ∀ key sig, ∃ rows, Sound (s.tables key sig) rows

section Steps
variable (layout : Layout ρ) (s t : Store ρ)

theorem allSound_empty : AllSound (Store.empty : Store ρ) := by
  intro key sig
  exact ⟨fun _ => [], sound_open _ [] _ ⟨List.Perm.refl _, by simp⟩⟩

theorem allSound_touch (hs : AllSound s) (key : UInt64) : AllSound (s.touch key) := by
  rw [Store.touch]
  split
  · exact hs
  · intro k sig
    by_cases hk : k = key
    · subst hk
      obtain ⟨rows, h⟩ := hs k sig
      simp only [Function.update_self]
      exact ⟨rows, sound_open _ _ _ h.holds⟩
    · simp only [Function.update_of_ne hk]
      exact hs k sig

theorem allSound_setTable (hs : AllSound s) (key : UInt64) (sig : SignalType)
    (p : SignalPartition ρ) (hp : ∃ rows, Sound p rows) : AllSound (s.setTable key sig p) := by
  intro k sg
  by_cases hk : k = key
  · subst hk
    by_cases hsig : sg = sig
    · subst hsig
      simpa [Store.setTable] using hp
    · simpa [Store.setTable, Function.update_of_ne hsig] using hs k sg
  · simpa [Store.setTable, Function.update_of_ne hk] using hs k sg

theorem allSound_deed (d : Deed ρ) (hs : AllSound s) (h : deed layout s d = some t) :
    AllSound t := by
  cases d with
  | write key =>
    cases h
    exact allSound_touch s hs key
  | flush key sig rows =>
    rw [deed] at h
    split at h
    · cases h
      obtain ⟨old, hold⟩ := hs key sig
      exact allSound_setTable s hs key sig _ ⟨_, sound_flush layout _ old hold rows⟩
    · cases h
  | compact key sig =>
    rw [deed] at h
    split at h
    · cases h
      obtain ⟨old, hold⟩ := hs key sig
      exact allSound_setTable s hs key sig _ (compact_complete layout _ old hold).1
    · cases h
  | restart =>
    cases h
    exact hs

theorem mem_paths (hs : AllSound s) (sig : SignalType) (path : UInt64 × Nat) :
    path ∈ s.paths sig ↔
      path.1 ∈ s.known ∧ path.2 ∈ (s.tables path.1 sig).dir.zonemap.keys := by
  obtain ⟨rows, h⟩ := hs path.1 sig
  rw [h.holds.keys.mem_iff]
  constructor
  · intro hp
    obtain ⟨key, hk, hm⟩ := List.mem_flatMap.mp hp
    obtain ⟨m, hmem, rfl⟩ := List.mem_map.mp hm
    exact ⟨hk, List.mem_map_of_mem hmem⟩
  · intro hp
    obtain ⟨m, hmem, he⟩ := List.mem_map.mp hp.2
    refine List.mem_flatMap.mpr ⟨path.1, hp.1, List.mem_map.mpr ⟨m, hmem, ?_⟩⟩
    rw [he]

theorem touch_dir (key k : UInt64) (sig : SignalType) :
    ((s.touch key).tables k sig).dir = (s.tables k sig).dir := by
  rw [Store.touch]
  split
  · rfl
  · by_cases hk : k = key
    · subst hk
      simp only [Function.update_self]
      rfl
    · simp only [Function.update_of_ne hk]

theorem mem_touch_known (key k : UInt64) :
    k ∈ (s.touch key).known ↔ k = key ∨ k ∈ s.known := by
  rw [Store.touch]
  split
  · rename_i hmem
    constructor
    · exact Or.inr
    · exact fun h => h.elim (fun he => he ▸ hmem) id
  · exact List.mem_cons

theorem touch_all (keys : List UInt64) (hs : AllSound s) :
    AllSound (keys.foldl Store.touch s) ∧
      (∀ k, k ∈ (keys.foldl Store.touch s).known ↔ k ∈ keys ∨ k ∈ s.known) ∧
      ∀ k sig, ((keys.foldl Store.touch s).tables k sig).dir = (s.tables k sig).dir := by
  induction keys generalizing s with
  | nil => exact ⟨hs, by simp, fun _ _ => rfl⟩
  | cons key keys ih =>
    obtain ⟨hsound, hknown, hdir⟩ := ih (s.touch key) (allSound_touch s hs key)
    refine ⟨hsound, ?_, ?_⟩
    · intro k
      rw [List.foldl_cons, hknown, mem_touch_known, List.mem_cons]
      tauto
    · intro k sig
      rw [List.foldl_cons, hdir, touch_dir]

end Steps

/-- After a restart the paths of a signal are the same exactly when there were none, though
opening the old partitions brings all of them back. -/
theorem paths_after_restart (layout : Layout ρ) (deeds : List (Deed ρ)) (s : Store ρ)
    (hrun : run (deed layout) Store.empty deeds = some s) (sig : SignalType) :
    ((∀ path, path ∈ s.restart.paths sig ↔ path ∈ s.paths sig) ↔ s.paths sig = []) ∧
      ∀ path, path ∈ (s.known.foldl Store.touch s.restart).paths sig ↔ path ∈ s.paths sig := by
  have hs : AllSound s := run_invariant (deed layout) (fun _ _ => True) AllSound
    (fun s d t hs _ h => allSound_deed layout s t d hs h) deeds _ s allSound_empty
    (along_true (deed layout) Store.empty deeds) hrun
  refine ⟨?_, ?_⟩
  · have hnone : s.restart.paths sig = [] := rfl
    rw [hnone, List.eq_nil_iff_forall_not_mem]
    simp
  · intro path
    obtain ⟨hsound, hknown, hdir⟩ := touch_all s.restart s.known hs
    rw [mem_paths _ hsound, mem_paths s hs, hknown, hdir]
    simp [Store.restart]

def oneFlush : List (Deed UInt64) := [.write 0, .flush 0 .log [5]]

theorem paths_after_restart_metrics :
    ∃ s, run (deed bareLayout) Store.empty oneFlush = some s ∧
      ((∀ path, path ∈ s.restart.paths .metric ↔ path ∈ s.paths .metric) ↔
        s.paths .metric = []) :=
  ⟨_, rfl, (paths_after_restart bareLayout oneFlush _ rfl .metric).1⟩

/-- The table is listed before the restart and not after it. -/
theorem restart_hides_table :
    ∃ s, run (deed bareLayout) Store.empty oneFlush = some s ∧
      s.paths .log = [(0, 1)] ∧ s.restart.paths .log = [] :=
  ⟨_, rfl, by decide, rfl⟩

end InfraLens.Tables
