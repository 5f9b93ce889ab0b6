import InfraLens.Compaction
import InfraLens.LibRun
import InfraLens.Model

/-! Queries beside flushes and compactions (engine.rs, scan.rs): a reader lists the
registered files partition by partition and reads them one after the other. -/
namespace InfraLens.Tables
open LibRun Model

variable {ρ κ : Type}

/-- A query: not started, listing the known partitions one by one, reading the listed
files, finished with its rows, or failed on a missing file. What it should see is the sum
of what was flushed in each partition when it was listed, each partition counted once. -/
inductive Reader (ρ : Type) where
  | idle
  | listing (sig : SignalType) (keys : List UInt64) (paths : List (UInt64 × Nat))
      (expected : Multiset ρ)
  | reading (sig : SignalType) (paths : List (UInt64 × Nat)) (got expected : Multiset ρ)
  | done (got expected : Multiset ρ)
  | failed

structure System (κ ρ : Type) where
  live : UInt64 → SignalType → Live ρ
  known : List UInt64
  readers : κ → Reader ρ

def System.new : System κ ρ := ⟨fun _ _ => Live.new, [], fun _ => .idle⟩

inductive SystemAct (κ ρ : Type) where
  | touch (key : UInt64)
  | table (key : UInt64) (sig : SignalType) (a : LiveAct ρ)
  | query (i : κ) (sig : SignalType) (partitionFilter : List UInt64)
  | list (i : κ)
  | readFile (i : κ)

section Step
variable [DecidableEq κ] (layout : Layout ρ) (s : System κ ρ)

def System.setReader (i : κ) (r : Reader ρ) : System κ ρ :=
  { s with readers := Function.update s.readers i r }

def System.setLive (key : UInt64) (sig : SignalType) (l : Live ρ) : System κ ρ :=
  { s with live := Function.update s.live key (Function.update (s.live key) sig l) }

/-- The keys `sstable_paths_for_signal` goes through. -/
def System.keys (partitionFilter : List UInt64) : List UInt64 :=
  if partitionFilter.isEmpty then s.known else partitionFilter

/-- One partition of `sstable_paths_for_signal`. -/
def System.list (i : κ) : Option (System κ ρ) :=
  match s.readers i with
  | .listing sig (key :: keys) paths expected =>
    if key ∈ s.known then
      some (s.setReader i (.listing sig keys
        (paths ++ (s.live key sig).sstables.map fun m => (key, m.seq))
        (expected + if key ∈ keys then 0 else (s.live key sig).flushed)))
    else some (s.setReader i (.listing sig keys paths expected))
  | .listing sig [] paths expected => some (s.setReader i (.reading sig paths 0 expected))
  | _ => none

/-- One file of `load_batches`. -/
def System.readFile (i : κ) : Option (System κ ρ) :=
  match s.readers i with
  | .reading sig (path :: paths) got expected =>
    match (s.live path.1 sig).dir.parquet.lookup path.2 with
    | some rows => some (s.setReader i (.reading sig paths (got + rows) expected))
    | none => some (s.setReader i .failed)
  | .reading _ [] got expected => some (s.setReader i (.done got expected))
  | _ => none

def System.step : SystemAct κ ρ → Option (System κ ρ)
  | .touch key => some (if key ∈ s.known then s else { s with known := key :: s.known })
  | .table key sig a =>
    if key ∈ s.known then ((s.live key sig).step layout a).map (s.setLive key sig) else none
  | .query i sig partitionFilter =>
    match s.readers i with
    | .idle => some (s.setReader i (.listing sig (s.keys partitionFilter) [] 0))
    | _ => none
  | .list i => s.list i
  | .readFile i => s.readFile i

end Step

def System.file (s : System κ ρ) (q : SignalType × UInt64 × Nat) : Option (List ρ) :=
  (s.live q.2.1 q.1).dir.parquet.lookup q.2.2

def Reader.pending : Reader ρ → List (SignalType × UInt64 × Nat)
  | .listing sig _ paths _ => paths.map fun path => (sig, path)
  | .reading sig paths _ _ => paths.map fun path => (sig, path)
  | _ => []

def Reader.got : Reader ρ → Multiset ρ
  | .reading _ _ got _ => got
  | .done got _ => got
  | _ => 0

def Reader.expected : Reader ρ → Multiset ρ
  | .listing _ _ _ expected => expected
  | .reading _ _ _ expected => expected
  | .done _ expected => expected
  | _ => 0

def Reader.keys : Reader ρ → List UInt64
  | .listing _ keys _ _ => keys
  | _ => []

def Reader.next : Reader ρ → Option (SignalType × UInt64)
  | .listing sig (key :: _) _ _ => some (sig, key)
  | _ => none

/-- When a compaction stays unseen: a partition is listed only while no rows are between
its registry and the output, and no file is deleted that a reader has still to read. A
filter names a partition once. -/
def Unseen (s : System κ ρ) : SystemAct κ ρ → Prop
  | .table key sig .delete => ∀ st ∈ (s.live key sig).phase.deletes.head?, ∀ n ∈ st.parquetNo,
      ∀ i, (sig, key, n) ∉ (s.readers i).pending
  | .query _ _ partitionFilter => partitionFilter.Nodup
  | .list i => ∀ p ∈ (s.readers i).next,
      (s.live p.2 p.1).dir.read (s.live p.2 p.1).phase.inputs = []
  | _ => True

instance decidableUnseen [Fintype κ] [DecidableEq ρ] (s : System κ ρ) :
    (a : SystemAct κ ρ) → Decidable (Unseen s a)
  | .touch _ => .isTrue trivial
  | .table key sig a => match a with
    | .delete => inferInstanceAs (Decidable (∀ st ∈ (s.live key sig).phase.deletes.head?,
        ∀ n ∈ st.parquetNo, ∀ i, (sig, key, n) ∉ (s.readers i).pending))
    | .flushWrite _ => .isTrue trivial
    | .flushRegister => .isTrue trivial
    | .drain => .isTrue trivial
    | .number => .isTrue trivial
    | .read => .isTrue trivial
    | .write => .isTrue trivial
    | .register => .isTrue trivial
    | .finish => .isTrue trivial
  | .query _ _ partitionFilter => inferInstanceAs (Decidable partitionFilter.Nodup)
  | .list i => (Option.decidableForallMem _ : Decidable (∀ p ∈ (s.readers i).next,
      (s.live p.2 p.1).dir.read (s.live p.2 p.1).phase.inputs = []))
  | .readFile _ => .isTrue trivial

/-- A path a reader may rely on: its file is there and is nobody's output. -/
structure Listed (s : System κ ρ) (q : SignalType × UInt64 × Nat) : Prop where
  file : (s.file q).isSome = true
  below : q.2.2 < (s.live q.2.1 q.1).nextSeq
  settled : (s.live q.2.1 q.1).phase.out ≠ some q.2.2

def System.rowsAt (s : System κ ρ) (qs : List (SignalType × UInt64 × Nat)) : List ρ :=
  qs.flatMap fun q => (s.file q).getD []

/-- What the reader has and will get is what it should see. -/
structure Sees (s : System κ ρ) (r : Reader ρ) : Prop where
  intact : r ≠ .failed
  once : r.keys.Nodup
  listed : ∀ q ∈ r.pending, Listed s q
  balance : r.got + s.rowsAt r.pending = r.expected

structure Coherent (layout : Layout ρ) (s : System κ ρ) : Prop where
  known : s.known.Nodup
  steady : ∀ key sig, Steady layout (s.live key sig)
  sees : ∀ i, Sees s (s.readers i)

theorem sees_of_keep (s s' : System κ ρ) (r : Reader ρ) (h : Sees s r)
    (hkeep : ∀ q ∈ r.pending, Listed s q → s'.file q = s.file q ∧ Listed s' q) : Sees s' r := by
  refine ⟨h.intact, h.once, fun q hq => (hkeep q hq (h.listed q hq)).2, ?_⟩
  have hrows : s'.rowsAt r.pending = s.rowsAt r.pending := by
    apply List.flatMap_congr
    intro q hq
    rw [(hkeep q hq (h.listed q hq)).1]
  rw [hrows]
  exact h.balance

theorem sees_of_live (s s' : System κ ρ) (r : Reader ρ) (hlive : s'.live = s.live)
    (h : Sees s r) : Sees s' r := by
  have hfile : s'.file = s.file := by
    funext q
    rw [System.file, System.file, hlive]
  refine sees_of_keep s s' r h ?_
  intro q _ hl
  exact ⟨congrFun hfile q, hfile ▸ hl.file, hlive ▸ hl.below, hlive ▸ hl.settled⟩

theorem setLive_live [DecidableEq κ] (s : System κ ρ) (key k : UInt64) (sig g : SignalType)
    (l : Live ρ) :
    (s.setLive key sig l).live k g = if k = key ∧ g = sig then l else s.live k g := by
  by_cases hk : k = key
  · subst hk
    by_cases hg : g = sig
    · subst hg
      simp [System.setLive]
    · simp [System.setLive, hg]
  · simp [System.setLive, hk]

section Steps
variable [DecidableEq κ] (layout : Layout ρ) (s : System κ ρ) (h : Coherent layout s)
include h

theorem coherent_setReader (i : κ) (r : Reader ρ) (hr : Sees s r) :
    Coherent layout (s.setReader i r) := by
  refine ⟨h.known, h.steady, ?_⟩
  intro j
  apply sees_of_live s (s.setReader i r) _ rfl
  exact (Function.forall_update_iff s.readers fun _ r => Sees s r).mpr
    ⟨hr, fun j _ => h.sees j⟩ j

theorem coherent_table (key : UInt64) (sig : SignalType) (a : LiveAct ρ) (l' : Live ρ)
    (hok : Unseen s (.table key sig a)) (hstep : (s.live key sig).step layout a = some l') :
    Coherent layout (s.setLive key sig l') := by
  refine ⟨h.known, ?_, ?_⟩
  · intro k g
    rw [setLive_live]
    split
    · exact steady_step layout _ (h.steady key sig) l' a hstep
    · exact h.steady k g
  · intro i
    apply sees_of_keep s _ _ (h.sees i)
    intro q hq hl
    by_cases he : q.2.1 = key ∧ q.1 = sig
    · have hlive : s.live q.2.1 q.1 = s.live key sig := by rw [he.1, he.2]
      have hlive' : (s.setLive key sig l').live q.2.1 q.1 = l' := by
        rw [setLive_live, if_pos he]
      have hq' : (sig, key, q.2.2) ∈ (s.readers i).pending := by
        rw [← he.1, ← he.2]
        exact hq
      obtain ⟨hfile, hlt, hout⟩ := lookup_step layout _ (h.steady key sig) l' a hstep q.2.2
        (hlive ▸ hl.below) (hlive ▸ hl.settled) (by
          intro st steps ha hp hn
          subst ha
          exact hok st (by rw [hp]; rfl) q.2.2 hn i hq')
      have hsame : (s.setLive key sig l').file q = s.file q := by
        rw [System.file, System.file, hlive, hlive']
        exact hfile
      exact ⟨hsame, hsame ▸ hl.file, hlive'.symm ▸ hlt, hlive'.symm ▸ hout⟩
    · have hlive : (s.setLive key sig l').live q.2.1 q.1 = s.live q.2.1 q.1 := by
        rw [setLive_live, if_neg he]
      have hsame : (s.setLive key sig l').file q = s.file q := by
        rw [System.file, System.file, hlive]
      exact ⟨hsame, hsame ▸ hl.file, hlive.symm ▸ hl.below, hlive.symm ▸ hl.settled⟩

omit [DecidableEq κ] in
theorem sees_list (sig : SignalType) (key : UInt64) (keys : List UInt64)
    (paths : List (UInt64 × Nat)) (expected : Multiset ρ)
    (hr : Sees s (.listing sig (key :: keys) paths expected))
    (hin : (s.live key sig).dir.read (s.live key sig).phase.inputs = []) :
    Sees s (.listing sig keys (paths ++ (s.live key sig).sstables.map fun m => (key, m.seq))
      (expected + if key ∈ keys then 0 else (s.live key sig).flushed)) := by
  have hst := h.steady key sig
  obtain ⟨hkey, hkeys⟩ := List.nodup_cons.mp hr.once
  rw [if_neg hkey]
  refine ⟨by simp, hkeys, ?_, ?_⟩
  · intro q hq
    rw [Reader.pending, List.map_append, List.mem_append] at hq
    cases hq with
    | inl hold => exact hr.listed q hold
    | inr hnew =>
      rw [List.map_map] at hnew
      obtain ⟨m, hm, rfl⟩ := List.mem_map.mp hnew
      have htab : m ∈ (s.live key sig).tables := List.mem_append_left _ hm
      refine ⟨hst.present m htab, hst.below m htab, ?_⟩
      intro ho
      exact (hst.out m.seq ho).2 (List.mem_map_of_mem htab)
  · have hread : s.rowsAt (((s.live key sig).sstables.map fun m => (key, m.seq)).map
        fun path => (sig, path)) = (s.live key sig).dir.read (s.live key sig).sstables := by
      rw [System.rowsAt, List.map_map, List.flatMap_map]
      rfl
    have hflushed : ((s.live key sig).dir.read (s.live key sig).sstables : Multiset ρ) =
        (s.live key sig).flushed := by
      rw [← hst.rows, Live.tables, read_append, hin, List.append_nil]
    have hold : (s.rowsAt (paths.map fun path => (sig, path)) : Multiset ρ) = expected := by
      simpa [Reader.got, Reader.pending, Reader.expected] using hr.balance
    have happ : s.rowsAt ((paths ++ (s.live key sig).sstables.map fun m => (key, m.seq)).map
        fun path => (sig, path)) = s.rowsAt (paths.map fun path => (sig, path)) ++
          (s.live key sig).dir.read (s.live key sig).sstables := by
      rw [← hread, List.map_append]
      exact List.flatMap_append
    calc
      (0 : Multiset ρ) + (s.rowsAt ((paths ++ (s.live key sig).sstables.map
          fun m => (key, m.seq)).map fun path => (sig, path)) : Multiset ρ) =
          s.rowsAt (paths.map fun path => (sig, path)) +
            (s.live key sig).dir.read (s.live key sig).sstables := by
        rw [zero_add, happ, Multiset.coe_add]
      _ = expected + (s.live key sig).flushed := by rw [hold, hflushed]

theorem coherent_list (i : κ) (t : System κ ρ) (hok : Unseen s (.list i))
    (hstep : s.list i = some t) : Coherent layout t := by
  have hr := h.sees i
  simp only [System.list] at hstep
  split at hstep
  · next sig key keys paths expected hi =>
    rw [hi] at hr
    have hin := hok (sig, key) (by rw [hi]; rfl)
    split at hstep
    · cases hstep
      exact coherent_setReader layout s h i _
        (sees_list layout s h sig key keys paths expected hr hin)
    · cases hstep
      exact coherent_setReader layout s h i _
        ⟨by simp, (List.nodup_cons.mp hr.once).2, hr.listed, hr.balance⟩
  · next sig paths expected hi =>
    rw [hi] at hr
    cases hstep
    exact coherent_setReader layout s h i _ ⟨by simp, List.nodup_nil, hr.listed, hr.balance⟩
  · cases hstep

theorem coherent_readFile (i : κ) (t : System κ ρ) (hstep : s.readFile i = some t) :
    Coherent layout t := by
  have hr := h.sees i
  simp only [System.readFile] at hstep
  split at hstep
  · next sig path paths got expected hi =>
    rw [hi] at hr
    have hfile := (hr.listed (sig, path) List.mem_cons_self).file
    split at hstep
    · next rows hrows =>
      cases hstep
      refine coherent_setReader layout s h i _
        ⟨by simp, List.nodup_nil, fun q hq => hr.listed q (List.mem_cons_of_mem _ hq), ?_⟩
      have hcons : s.rowsAt ((path :: paths).map fun path => (sig, path)) =
          rows ++ s.rowsAt (paths.map fun path => (sig, path)) := by
        rw [System.rowsAt, List.map_cons, List.flatMap_cons, System.file, hrows]
        rfl
      have hbal : got + (s.rowsAt ((path :: paths).map fun path => (sig, path)) : Multiset ρ) =
          expected := hr.balance
      rw [hcons, ← Multiset.coe_add, ← add_assoc] at hbal
      exact hbal
    · next hnone =>
      rw [System.file, hnone] at hfile
      cases hfile
  · next sig got expected hi =>
    rw [hi] at hr
    cases hstep
    exact coherent_setReader layout s h i _ ⟨by simp, List.nodup_nil, hr.listed, hr.balance⟩
  · cases hstep

theorem coherent_step (a : SystemAct κ ρ) (t : System κ ρ) (hok : Unseen s a)
    (hstep : s.step layout a = some t) : Coherent layout t := by
  cases a with
  | touch key =>
    simp only [System.step] at hstep
    split at hstep
    · cases hstep
      exact h
    · next hnew =>
      cases hstep
      exact ⟨List.nodup_cons.mpr ⟨hnew, h.known⟩, h.steady,
        fun i => sees_of_live s _ _ rfl (h.sees i)⟩
  | table key sig a =>
    simp only [System.step] at hstep
    split at hstep
    · obtain ⟨l', hl, rfl⟩ := Option.map_eq_some_iff.mp hstep
      exact coherent_table layout s h key sig a l' hok hl
    · cases hstep
  | query i sig partitionFilter =>
    simp only [System.step] at hstep
    split at hstep
    · cases hstep
      have hkeys : (s.keys partitionFilter).Nodup := by
        rw [System.keys]
        split
        · exact h.known
        · exact hok
      exact coherent_setReader layout s h i _ ⟨by simp, hkeys, (by intro _ hq; cases hq), rfl⟩
    · cases hstep
  | list i => exact coherent_list layout s h i t hok hstep
  | readFile i => exact coherent_readFile layout s h i t hstep

end Steps

theorem coherent_new (layout : Layout ρ) : Coherent layout (System.new : System κ ρ) where
  known := List.nodup_nil
  steady := fun _ _ => steady_new layout
  sees := fun _ => ⟨by simp [System.new], List.nodup_nil, (by intro _ hq; cases hq), rfl⟩

/-- In every run whose compactions stay unseen no reader fails, every listed path has its
file until it is read, and every finished reader has the rows that were flushed in each
partition when it listed it. -/
theorem readers_see_flushed [DecidableEq κ] (layout : Layout ρ) (acts : List (SystemAct κ ρ))
    (t : System κ ρ) (hok : Along (System.step layout) Unseen System.new acts)
    (hrun : run (System.step layout) System.new acts = some t) (i : κ) :
    t.readers i ≠ .failed ∧ (∀ q ∈ (t.readers i).pending, (t.file q).isSome = true) ∧
      ∀ got expected, t.readers i = .done got expected → got = expected := by
  have h := run_invariant (System.step layout) Unseen (Coherent layout)
    (fun s a t hs ha hst => coherent_step layout s hs a t ha hst) acts _ t
    (coherent_new layout) hok hrun
  have hi := h.sees i
  refine ⟨hi.intact, fun q hq => (hi.listed q hq).file, ?_⟩
  intro got expected hdone
  rw [hdone] at hi
  exact (add_zero got).symm.trans hi.balance

def flushTwo : List (SystemAct Unit UInt64) :=
  [.touch 0, .table 0 .log (.flushWrite [1]), .table 0 .log .flushRegister,
    .table 0 .log (.flushWrite [2]), .table 0 .log .flushRegister]

/-- A compaction from the drain to the registration of its output. -/
def mergeTwo : List (SystemAct Unit UInt64) :=
  [.table 0 .log .drain, .table 0 .log .number, .table 0 .log .read, .table 0 .log .write,
    .table 0 .log .write, .table 0 .log .write, .table 0 .log .write, .table 0 .log .register]

def listAll : List (SystemAct Unit UInt64) := [.query () .log [], .list (), .list ()]

theorem readers_see_flushed_merged :
    ∃ t, run (System.step bareLayout) System.new
        (flushTwo ++ mergeTwo ++ listAll ++ [.readFile (), .readFile ()]) = some t ∧
      t.readers () = .done {1, 2} {1, 2} ∧
      ∀ got expected, t.readers () = .done got expected → got = expected := by
  have hok : Along (System.step bareLayout) Unseen System.new
      (flushTwo ++ mergeTwo ++ listAll ++ [.readFile (), .readFile ()]) := by decide +kernel
  exact ⟨_, rfl, rfl, (readers_see_flushed bareLayout _ _ hok rfl ()).2.2⟩

/-- Listed between the drain and the registration, the partition has no rows; listed before
and read after, its files are gone. -/
theorem compaction_seen :
    (∃ t, run (System.step bareLayout) System.new
        (flushTwo ++ [.table 0 .log .drain] ++ listAll ++ [.readFile ()]) = some t ∧
      t.readers () = .done 0 {1, 2}) ∧
    ∃ t, run (System.step bareLayout) System.new
        (flushTwo ++ listAll ++ mergeTwo ++ [.table 0 .log .delete, .readFile ()]) = some t ∧
      t.readers () = .failed := by
  exact ⟨⟨_, rfl, rfl⟩, ⟨_, rfl, rfl⟩⟩

end InfraLens.Tables
