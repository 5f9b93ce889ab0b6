import InfraLens.SSTableDir
import InfraLens.LibRun

/-! Sequence numbers under any number of flushes and compactions at once, down to the
creation of a single file, with failures and crashes between any two steps. A file that was
created but not yet written does not decode. -/
namespace InfraLens.Tables
open LibRun

inductive FileKind where
  | parquet
  | bloom
  | zonemap
  deriving DecidableEq

/-- The file names of a signal's directory; a zone map without content does not decode. -/
structure Disk where
  parquet : List Nat
  bloom : List Nat
  zonemap : AList (fun _ : Nat => Option ZoneMap)

def Disk.empty : Disk := ⟨[], [], ∅⟩

inductive DiskStep where
  | create (kind : FileKind) (seq : Nat)
  | write (kind : FileKind) (seq : Nat)
  | writeZonemap (seq : Nat) (zm : ZoneMap)
  | sync (seq : Nat)
  | remove (kind : FileKind) (seq : Nat)

def Disk.apply (d : Disk) : DiskStep → Disk
  | .create .parquet seq => { d with parquet := d.parquet.insert seq }
  | .create .bloom seq => { d with bloom := d.bloom.insert seq }
  | .create .zonemap seq => { d with zonemap := d.zonemap.insert seq none }
  | .write _ _ => d
  | .writeZonemap seq zm => { d with zonemap := d.zonemap.insert seq (some zm) }
  | .sync _ => d
  | .remove .parquet seq => { d with parquet := d.parquet.erase seq }
  | .remove .bloom seq => { d with bloom := d.bloom.erase seq }
  | .remove .zonemap seq => { d with zonemap := d.zonemap.erase seq }

/-- What `SignalPartition::open` registers: the zone maps that decode. -/
def Disk.registered (d : Disk) : List SSTableMeta :=
  (d.zonemap.entries.filterMap fun e => e.2.map fun zm => ⟨e.1, zm⟩).insertionSort
    fun a b => a.seq ≤ b.seq

/-- The next number after `open`: above every `.zonemap` name, decoding or not. -/
def Disk.nextSeq (d : Disk) : Nat := d.zonemap.keys.foldl max 0 + 1

/-- `write_logs` and its siblings: `File::create`, the rows, and two `fs::write`. -/
def flushWrites (seq : Nat) (zm : ZoneMap) : List DiskStep :=
  [.create .parquet seq, .write .parquet seq, .create .bloom seq, .write .bloom seq,
    .create .zonemap seq, .writeZonemap seq zm]

/-- The output of `compact_signal`. -/
def outputWrites (seq : Nat) (zm : ZoneMap) : List DiskStep :=
  [.create .parquet seq, .write .parquet seq, .sync seq, .create .bloom seq,
    .write .bloom seq, .create .zonemap seq, .writeZonemap seq zm]

def removals (inputs : List SSTableMeta) : List DiskStep :=
  inputs.flatMap fun m => [.remove .parquet m.seq, .remove .bloom m.seq, .remove .zonemap m.seq]

/-- One flush or compaction and what is left of it. -/
inductive Job where
  | idle
  | flushing (m : SSTableMeta) (todo : List DiskStep)
  | drained (inputs : List SSTableMeta)
  | numbered (inputs : List SSTableMeta) (out : Nat)
  | merging (inputs : List SSTableMeta) (m : SSTableMeta) (todo : List DiskStep)
  | deleting (todo : List DiskStep)

/-- The sub-partition with the jobs that are under way. -/
structure InFlight where
  disk : Disk
  sstables : List SSTableMeta
  nextSeq : Nat
  jobs : Nat → Job

def InFlight.open (d : Disk) : InFlight := ⟨d, d.registered, d.nextSeq, fun _ => .idle⟩

inductive JobAct where
  | flush (i : Nat) (zm : ZoneMap)
  | drain (i : Nat)
  | number (i : Nat)
  | read (i : Nat) (merged : Option ZoneMap)
  | perform (i : Nat)
  | skip (i : Nat)
  | register (i : Nat)
  | fail (i : Nat)
  | crash

def Job.todo : Job → List DiskStep
  | .flushing _ todo => todo
  | .merging _ _ todo => todo
  | .deleting todo => todo
  | _ => []

def Job.withTodo (todo : List DiskStep) : Job → Job
  | .flushing m _ => .flushing m todo
  | .merging inputs m _ => .merging inputs m todo
  | .deleting _ => .deleting todo
  | job => job

def InFlight.set (s : InFlight) (i : Nat) (job : Job) : InFlight :=
  { s with jobs := Function.update s.jobs i job }

/-- One step. The outcome of reading the inputs is any: no row at all, or rows with some
zone map. A failure ends a job where it stands; only a deletion that fails is passed over. -/
def InFlight.step (s : InFlight) : JobAct → Option InFlight
  | .flush i zm =>
    match s.jobs i with
    | .idle => some
        { s.set i (.flushing ⟨s.nextSeq, zm⟩ (flushWrites s.nextSeq zm)) with
          nextSeq := s.nextSeq + 1 }
    | _ => none
  | .drain i =>
    match s.jobs i with
    | .idle =>
      if s.sstables.length < 2 then none
      else some { s.set i (.drained s.sstables) with sstables := [] }
    | _ => none
  | .number i =>
    match s.jobs i with
    | .drained inputs => some
        { s.set i (.numbered inputs s.nextSeq) with nextSeq := s.nextSeq + 1 }
    | _ => none
  | .read i merged =>
    match s.jobs i, merged with
    | .numbered inputs _, none => some (s.set i (.deleting (removals inputs)))
    | .numbered inputs out, some zm => some (s.set i (.merging inputs ⟨out, zm⟩
        (outputWrites out zm)))
    | _, _ => none
  | .perform i =>
    match (s.jobs i).todo with
    | [] => none
    | st :: todo => some
        { s.set i ((s.jobs i).withTodo todo) with disk := s.disk.apply st }
  | .skip i =>
    match s.jobs i with
    | .deleting (_ :: todo) => some (s.set i (.deleting todo))
    | _ => none
  | .register i =>
    match s.jobs i with
    | .flushing m [] => some { s.set i .idle with sstables := s.sstables ++ [m] }
    | .merging inputs m [] => some
        { s.set i (.deleting (removals inputs)) with sstables := s.sstables ++ [m] }
    | _ => none
  | .fail i => some (s.set i .idle)
  | .crash => some (InFlight.open s.disk)

/-! ### Who owns which number -/

def Job.out : Job → Option Nat
  | .flushing m _ => some m.seq
  | .numbered _ out => some out
  | .merging _ m _ => some m.seq
  | _ => none

/-- The tables a compaction has taken and not yet given up. -/
def Job.inputs : Job → List SSTableMeta
  | .drained inputs => inputs
  | .numbered inputs _ => inputs
  | .merging inputs _ _ => inputs
  | _ => []

/-- A job creates files under its own number only. -/
def Job.Aimed (job : Job) : Prop :=
  ∀ kind n, DiskStep.create kind n ∈ job.todo → job.out = some n

theorem aimed_flushing (m : SSTableMeta) (zm : ZoneMap) :
    (Job.flushing m (flushWrites m.seq zm)).Aimed := by
  intro kind n h
  simp only [Job.todo, flushWrites, List.mem_cons, List.not_mem_nil, or_false,
    DiskStep.create.injEq, reduceCtorEq, false_or] at h
  simp only [Job.out]
  grind

theorem aimed_merging (inputs : List SSTableMeta) (m : SSTableMeta) (zm : ZoneMap) :
    (Job.merging inputs m (outputWrites m.seq zm)).Aimed := by
  intro kind n h
  simp only [Job.todo, outputWrites, List.mem_cons, List.not_mem_nil, or_false,
    DiskStep.create.injEq, reduceCtorEq, false_or] at h
  simp only [Job.out]
  grind

theorem aimed_deleting (inputs : List SSTableMeta) :
    (Job.deleting (removals inputs)).Aimed := by
  intro kind n h
  obtain ⟨m, _, hm⟩ := List.mem_flatMap.mp h
  simp at hm

theorem todo_withTodo (job : Job) (st : DiskStep) (todo : List DiskStep)
    (h : job.todo = st :: todo) : (job.withTodo todo).todo = todo := by
  cases job with
  | flushing => rfl
  | merging => rfl
  | deleting => rfl
  | idle => cases h
  | drained => cases h
  | numbered => cases h

@[simp] theorem out_withTodo (job : Job) (todo : List DiskStep) :
    (job.withTodo todo).out = job.out := by
  cases job <;> rfl

@[simp] theorem inputs_withTodo (job : Job) (todo : List DiskStep) :
    (job.withTodo todo).inputs = job.inputs := by
  cases job <;> rfl

/-- Numbers are given out once: registered tables differ, all numbers in use are below the
next one, and the number of a job under way is neither registered, nor an input of a
compaction, nor the number of another job. -/
structure Unreused (s : InFlight) : Prop where
  distinct : (s.sstables.map SSTableMeta.seq).Nodup
  below : ∀ m ∈ s.sstables, m.seq < s.nextSeq
  inputs : ∀ i, ∀ m ∈ (s.jobs i).inputs, m.seq < s.nextSeq
  outs : ∀ i n, (s.jobs i).out = some n → n < s.nextSeq
  unregistered : ∀ i n, (s.jobs i).out = some n → ∀ m ∈ s.sstables, m.seq ≠ n
  uninput : ∀ i n, (s.jobs i).out = some n → ∀ j, ∀ m ∈ (s.jobs j).inputs, m.seq ≠ n
  apart : ∀ i j n, (s.jobs i).out = some n → (s.jobs j).out = some n → i = j
  aimed : ∀ i, (s.jobs i).Aimed

/-- A job gives up some of what it owns, or goes on. -/
structure Job.Shrinks (old new : Job) : Prop where
  out : ∀ n, new.out = some n → old.out = some n
  inputs : ∀ m ∈ new.inputs, m ∈ old.inputs
  aimed : new.Aimed

theorem jobs_set (s : InFlight) (i : Nat) (job : Job) (P : Nat → Job → Prop) (hi : P i job)
    (hrest : ∀ j, P j (s.jobs j)) (j : Nat) : P j ((s.set i job).jobs j) := by
  by_cases h : j = i
  · subst h
    simpa [InFlight.set] using hi
  · simpa [InFlight.set, h] using hrest j

section Steps
variable (s : InFlight) (i : Nat) (job : Job)

theorem shrinks_set (h : (s.jobs i).Shrinks job) (haimed : ∀ j, (s.jobs j).Aimed) (j : Nat) :
    (s.jobs j).Shrinks ((s.set i job).jobs j) :=
  jobs_set s i job (fun j new => (s.jobs j).Shrinks new) h
    (fun j => ⟨fun _ hn => hn, fun _ hm => hm, haimed j⟩) j

theorem unreused_shrink (hs : Unreused s) (h : (s.jobs i).Shrinks job) (d : Disk) :
    Unreused { s.set i job with disk := d } := by
  have hall := shrinks_set s i job h hs.aimed
  exact
    { distinct := hs.distinct
      below := hs.below
      inputs := fun j m hm => hs.inputs j m ((hall j).inputs m hm)
      outs := fun j n hn => hs.outs j n ((hall j).out n hn)
      unregistered := fun j n hn => hs.unregistered j n ((hall j).out n hn)
      uninput := fun j n hn k m hm =>
        hs.uninput j n ((hall j).out n hn) k m ((hall k).inputs m hm)
      apart := fun j k n hj hk => hs.apart j k n ((hall j).out n hj) ((hall k).out n hk)
      aimed := fun j => (hall j).aimed }

theorem unreused_take (hs : Unreused s) (hout : job.out = some s.nextSeq)
    (hin : ∀ m ∈ job.inputs, m ∈ (s.jobs i).inputs) (ha : job.Aimed) :
    Unreused { s.set i job with nextSeq := s.nextSeq + 1 } := by
  have howner : ∀ j n, ((s.set i job).jobs j).out = some n →
      (j = i ∧ n = s.nextSeq) ∨ (s.jobs j).out = some n := by
    refine jobs_set s i job (fun j new => ∀ n, new.out = some n →
      (j = i ∧ n = s.nextSeq) ∨ (s.jobs j).out = some n) ?_ fun _ _ hn => Or.inr hn
    intro n hn
    rw [hout] at hn
    exact Or.inl ⟨rfl, (Option.some.inj hn).symm⟩
  have hinputs : ∀ j, ∀ m ∈ ((s.set i job).jobs j).inputs, m ∈ (s.jobs j).inputs :=
    jobs_set s i job (fun j new => ∀ m ∈ new.inputs, m ∈ (s.jobs j).inputs) hin
      fun _ _ hm => hm
  refine ⟨hs.distinct, ?_, ?_, ?_, ?_, ?_, ?_, ?_⟩
  · intro m hm
    exact Nat.lt_succ_of_lt (hs.below m hm)
  · intro j m hm
    exact Nat.lt_succ_of_lt (hs.inputs j m (hinputs j m hm))
  · intro j n hn
    obtain ⟨_, rfl⟩ | hold := howner j n hn
    · exact Nat.lt_succ_self _
    · exact Nat.lt_succ_of_lt (hs.outs j n hold)
  · intro j n hn m hm
    obtain ⟨_, rfl⟩ | hold := howner j n hn
    · exact (hs.below m hm).ne
    · exact hs.unregistered j n hold m hm
  · intro j n hn k m hm
    obtain ⟨_, rfl⟩ | hold := howner j n hn
    · exact (hs.inputs k m (hinputs k m hm)).ne
    · exact hs.uninput j n hold k m (hinputs k m hm)
  · intro j k n hj hk
    obtain ⟨hji, hjn⟩ | hjold := howner j n hj
    · obtain ⟨hki, _⟩ | hkold := howner k n hk
      · exact hji.trans hki.symm
      · exact absurd (hs.outs k n hkold) (by omega)
    · obtain ⟨_, hkn⟩ | hkold := howner k n hk
      · exact absurd (hs.outs j n hjold) (by omega)
      · exact hs.apart j k n hjold hkold
  · exact jobs_set s i job (fun _ new => new.Aimed) ha hs.aimed

theorem unreused_drain (hs : Unreused s) :
    Unreused { s.set i (.drained s.sstables) with sstables := [] } := by
  have hold : ∀ j n, ((s.set i (.drained s.sstables)).jobs j).out = some n →
      (s.jobs j).out = some n := by
    refine jobs_set s i _ (fun j new => ∀ n, new.out = some n → (s.jobs j).out = some n) ?_
      fun _ _ hn => hn
    intro n hn
    cases hn
  have hinputs : ∀ j, ∀ m ∈ ((s.set i (.drained s.sstables)).jobs j).inputs,
      m ∈ s.sstables ∨ m ∈ (s.jobs j).inputs :=
    jobs_set s i _ (fun j new => ∀ m ∈ new.inputs, m ∈ s.sstables ∨ m ∈ (s.jobs j).inputs)
      (fun _ hm => Or.inl hm) fun _ _ hm => Or.inr hm
  refine ⟨List.nodup_nil, by simp, ?_, ?_, by simp, ?_, ?_, ?_⟩
  · intro j m hm
    cases hinputs j m hm with
    | inl hreg => exact hs.below m hreg
    | inr hin => exact hs.inputs j m hin
  · intro j n hn
    exact hs.outs j n (hold j n hn)
  · intro j n hn k m hm
    cases hinputs k m hm with
    | inl hreg => exact hs.unregistered j n (hold j n hn) m hreg
    | inr hin => exact hs.uninput j n (hold j n hn) k m hin
  · intro j k n hj hk
    exact hs.apart j k n (hold j n hj) (hold k n hk)
  · refine jobs_set s i _ (fun _ new => new.Aimed) ?_ hs.aimed
    intro kind n hmem
    cases hmem

theorem unreused_register (hs : Unreused s) (m : SSTableMeta)
    (hout : (s.jobs i).out = some m.seq) (hnone : job.out = none)
    (hin : ∀ m ∈ job.inputs, m ∈ (s.jobs i).inputs) (ha : job.Aimed) :
    Unreused { s.set i job with sstables := s.sstables ++ [m] } := by
  have hshrink : (s.jobs i).Shrinks job := ⟨by simp [hnone], hin, ha⟩
  have hall := shrinks_set s i job hshrink hs.aimed
  have hrest := unreused_shrink s i job hs hshrink s.disk
  refine ⟨?_, ?_, hrest.inputs, hrest.outs, ?_, hrest.uninput, hrest.apart, hrest.aimed⟩
  · rw [List.map_append]
    refine hs.distinct.append (List.nodup_singleton _) ?_
    intro n hn hm
    obtain ⟨m', hm', rfl⟩ := List.mem_map.mp hn
    exact hs.unregistered i m.seq hout m' hm' (by simpa using hm)
  · intro m' hm'
    cases List.mem_append.mp hm' with
    | inl hold => exact hs.below m' hold
    | inr hnew => exact List.mem_singleton.mp hnew ▸ hs.outs i m.seq hout
  · intro j n hn m' hm'
    cases List.mem_append.mp hm' with
    | inl hold => exact hs.unregistered j n ((hall j).out n hn) m' hold
    | inr hnew =>
      intro he
      rw [List.mem_singleton.mp hnew] at he
      subst he
      have hij := hs.apart i j m.seq hout ((hall j).out _ hn)
      subst hij
      simp [InFlight.set, hnone] at hn

end Steps

theorem registered_seqs (d : Disk) :
    ∃ seqs, (d.registered.map SSTableMeta.seq).Perm seqs ∧ seqs.Sublist d.zonemap.keys := by
  refine ⟨_, (List.perm_insertionSort (fun a b : SSTableMeta => a.seq ≤ b.seq) _).map
    SSTableMeta.seq, ?_⟩
  rw [AList.keys, List.keys]
  induction d.zonemap.entries with
  | nil => exact List.Sublist.refl _
  | cons e entries ih =>
    obtain ⟨n, zm⟩ := e
    cases zm with
    | none => exact ih.cons n
    | some zm => exact ih.cons_cons n

/-- After a crash every number in use comes from a file name, and names differ. -/
theorem unreused_open (d : Disk) : Unreused (InFlight.open d) := by
  obtain ⟨seqs, hperm, hsub⟩ := registered_seqs d
  refine ⟨?_, ?_, ?_, ?_, ?_, ?_, ?_, ?_⟩
  · exact hperm.nodup_iff.mpr (d.zonemap.keys_nodup.sublist hsub)
  · intro m hm
    have hkey := hsub.subset (hperm.mem_iff.mp (List.mem_map_of_mem hm))
    exact Nat.lt_succ_of_le (le_foldl_max d.zonemap.keys 0 m.seq (Or.inr hkey))
  all_goals
    simp [InFlight.open, Job.out, Job.inputs, Job.Aimed, Job.todo]

theorem unreused_perform (s : InFlight) (i : Nat) (st : DiskStep) (todo : List DiskStep)
    (hs : Unreused s) (h : (s.jobs i).todo = st :: todo) :
    Unreused { s.set i ((s.jobs i).withTodo todo) with disk := s.disk.apply st } := by
  refine unreused_shrink s i _ hs ⟨by simp, by simp, ?_⟩ _
  intro kind n hmem
  rw [todo_withTodo _ st todo h] at hmem
  rw [out_withTodo]
  exact hs.aimed i kind n (h ▸ List.mem_cons_of_mem st hmem)

theorem unreused_step (s t : InFlight) (a : JobAct) (hs : Unreused s)
    (h : s.step a = some t) : Unreused t := by
  cases a with
  | flush i zm =>
    simp only [InFlight.step] at h
    split at h
    · cases Option.some.inj h
      exact unreused_take s i _ hs rfl (by simp [Job.inputs]) (aimed_flushing _ zm)
    · cases h
  | drain i =>
    simp only [InFlight.step] at h
    split at h
    · split at h
      · cases h
      · cases Option.some.inj h
        exact unreused_drain s i hs
    · cases h
  | number i =>
    simp only [InFlight.step] at h
    split at h
    · rename_i inputs hi
      cases Option.some.inj h
      refine unreused_take s i _ hs rfl (by simp [hi, Job.inputs]) ?_
      intro kind n hmem
      cases hmem
    · cases h
  | read i merged =>
    simp only [InFlight.step] at h
    split at h
    · rename_i inputs out hi
      cases Option.some.inj h
      exact unreused_shrink s i _ hs
        ⟨by simp [Job.out], by simp [Job.inputs], aimed_deleting inputs⟩ s.disk
    · rename_i inputs out zm hi
      cases Option.some.inj h
      exact unreused_shrink s i _ hs
        ⟨by simp [hi, Job.out], by simp [hi, Job.inputs], aimed_merging inputs _ zm⟩ s.disk
    · cases h
  | perform i =>
    simp only [InFlight.step] at h
    split at h
    · cases h
    · rename_i st todo hi
      cases Option.some.inj h
      exact unreused_perform s i st todo hs hi
  | skip i =>
    simp only [InFlight.step] at h
    split at h
    · rename_i st todo hi
      cases Option.some.inj h
      refine unreused_shrink s i _ hs ⟨by simp [Job.out], by simp [Job.inputs], ?_⟩ s.disk
      intro kind n hmem
      have hold := hs.aimed i kind n (by rw [hi]; exact List.mem_cons_of_mem st hmem)
      rw [hi] at hold
      cases hold
    · cases h
  | register i =>
    simp only [InFlight.step] at h
    split at h
    · rename_i m hi
      cases Option.some.inj h
      refine unreused_register s i _ hs m (by simp [hi, Job.out]) rfl (by simp [Job.inputs]) ?_
      intro kind n hmem
      cases hmem
    · rename_i inputs m hi
      cases Option.some.inj h
      exact unreused_register s i _ hs m (by simp [hi, Job.out]) rfl (by simp [Job.inputs])
        (aimed_deleting inputs)
    · cases h
  | fail i =>
    cases Option.some.inj h
    refine unreused_shrink s i _ hs ⟨by simp [Job.out], by simp [Job.inputs], ?_⟩ s.disk
    intro kind n hmem
    cases hmem
  | crash =>
    cases Option.some.inj h
    exact unreused_open s.disk

/-! ### The counter is a `u64` -/

def JobAct.takesNumber : JobAct → Bool
  | .flush _ _ => true
  | .number _ => true
  | _ => false

/-- The step with the counter as the code has it, wrapping at `u64::MAX`. -/
def InFlight.atomicStep (s : InFlight) (a : JobAct) : Option InFlight :=
  (s.step a).map fun t => { t with nextSeq := t.nextSeq % 2 ^ 64 }

/-- The number a step puts into the name of a zone map. -/
def DiskStep.named : DiskStep → Option Nat
  | .create .zonemap seq => some seq
  | .writeZonemap seq _ => some seq
  | _ => none

/-- The numbers a job holds and those it still has to put into names. -/
structure Job.Below (bound : Nat) (job : Job) : Prop where
  out : ∀ n, job.out = some n → n < bound
  named : ∀ st ∈ job.todo, ∀ n, st.named = some n → n < bound

/-- Every number on disk or under way is below the next one. -/
structure Counted (s : InFlight) : Prop where
  pos : 0 < s.nextSeq
  names : ∀ n ∈ s.disk.zonemap.keys, n < s.nextSeq
  jobs : ∀ i, (s.jobs i).Below s.nextSeq

theorem named_of_mem_keys (d : Disk) (st : DiskStep) (n : Nat)
    (h : n ∈ (d.apply st).zonemap.keys) : n ∈ d.zonemap.keys ∨ st.named = some n := by
  rw [← AList.mem_keys] at h ⊢
  cases st with
  | create kind seq =>
    cases kind with
    | zonemap =>
      obtain rfl | hold := (AList.mem_insert _).mp h
      · exact Or.inr rfl
      · exact Or.inl hold
    | _ => exact Or.inl h
  | writeZonemap seq zm =>
    obtain rfl | hold := (AList.mem_insert _).mp h
    · exact Or.inr rfl
    · exact Or.inl hold
  | remove kind seq =>
    cases kind with
    | zonemap => exact Or.inl (AList.mem_erase.mp h).2
    | _ => exact Or.inl h
  | _ => exact Or.inl h

theorem foldl_max_lt (l : List Nat) (b c : Nat) (hc : c < b) (h : ∀ n ∈ l, n < b) :
    l.foldl max c < b := by
  induction l generalizing c with
  | nil => exact hc
  | cons n l ih =>
    rw [List.forall_mem_cons] at h
    exact ih (max c n) (max_lt hc h.1) h.2

theorem Job.Below.mono {b b' : Nat} {job : Job} (h : job.Below b) (hle : b ≤ b') :
    job.Below b' :=
  ⟨fun n hn => (h.out n hn).trans_le hle, fun st hst n hn => (h.named st hst n hn).trans_le hle⟩

theorem Job.Below.withTodo {b : Nat} {job : Job} (h : job.Below b) {st : DiskStep}
    {todo : List DiskStep} (htodo : job.todo = st :: todo) : (job.withTodo todo).Below b := by
  refine ⟨fun n hn => h.out n (by simpa using hn), fun st' hst' => ?_⟩
  rw [todo_withTodo job st todo htodo] at hst'
  exact h.named st' (htodo ▸ List.mem_cons_of_mem st hst')

theorem below_flushing (seq : Nat) (zm : ZoneMap) (b : Nat) (h : seq < b) :
    (Job.flushing ⟨seq, zm⟩ (flushWrites seq zm)).Below b := by
  refine ⟨fun n hn => Option.some.inj hn ▸ h, fun st hst n hn => ?_⟩
  simp only [Job.todo, flushWrites, List.mem_cons, List.not_mem_nil, or_false] at hst
  obtain rfl | rfl | rfl | rfl | rfl | rfl := hst <;> cases hn <;> exact h

theorem below_merging (inputs : List SSTableMeta) (seq : Nat) (zm : ZoneMap) (b : Nat)
    (h : seq < b) : (Job.merging inputs ⟨seq, zm⟩ (outputWrites seq zm)).Below b := by
  refine ⟨fun n hn => Option.some.inj hn ▸ h, fun st hst n hn => ?_⟩
  simp only [Job.todo, outputWrites, List.mem_cons, List.not_mem_nil, or_false] at hst
  obtain rfl | rfl | rfl | rfl | rfl | rfl | rfl := hst <;> cases hn <;> exact h

theorem below_deleting (inputs : List SSTableMeta) (b : Nat) :
    (Job.deleting (removals inputs)).Below b := by
  refine ⟨by simp [Job.out], fun st hst n hn => ?_⟩
  obtain ⟨m, _, hm⟩ := List.mem_flatMap.mp hst
  simp only [List.mem_cons, List.not_mem_nil, or_false] at hm
  obtain rfl | rfl | rfl := hm <;> cases hn

theorem below_idle (b : Nat) : Job.idle.Below b := ⟨by simp [Job.out], by simp [Job.todo]⟩

theorem counted_set (s t : InFlight) (i : Nat) (job : Job) (hs : Counted s)
    (hjobs : t.jobs = (s.set i job).jobs) (hle : s.nextSeq ≤ t.nextSeq)
    (hjob : job.Below t.nextSeq) (hnames : ∀ n ∈ t.disk.zonemap.keys, n < t.nextSeq) :
    Counted t := by
  refine ⟨hs.pos.trans_le hle, hnames, ?_⟩
  rw [hjobs]
  exact jobs_set s i job (fun _ job => job.Below t.nextSeq) hjob fun j => (hs.jobs j).mono hle

theorem counted_open (d : Disk) : Counted (InFlight.open d) := by
  refine ⟨Nat.succ_pos _, fun n hn => ?_, fun _ => below_idle _⟩
  exact Nat.lt_succ_of_le (le_foldl_max d.zonemap.keys 0 n (Or.inr hn))

theorem counted_step (s t : InFlight) (a : JobAct) (hs : Counted s) (h : s.step a = some t) :
    Counted t ∧ t.nextSeq ≤ s.nextSeq + if a.takesNumber then 1 else 0 := by
  cases a with
  | flush i zm =>
    simp only [InFlight.step] at h
    split at h
    · cases Option.some.inj h
      exact ⟨counted_set s _ i _ hs rfl (Nat.le_succ _)
        (below_flushing _ zm _ (Nat.lt_succ_self _))
        fun n hn => Nat.lt_succ_of_lt (hs.names n hn), le_rfl⟩
    · cases h
  | drain i =>
    simp only [InFlight.step] at h
    split at h
    · split at h
      · cases h
      · cases Option.some.inj h
        exact ⟨counted_set s _ i _ hs rfl le_rfl ⟨by simp [Job.out], by simp [Job.todo]⟩ hs.names,
          le_rfl⟩
    · cases h
  | number i =>
    simp only [InFlight.step] at h
    split at h
    · cases Option.some.inj h
      refine ⟨counted_set s _ i _ hs rfl (Nat.le_succ _) ⟨?_, by simp [Job.todo]⟩
        fun n hn => Nat.lt_succ_of_lt (hs.names n hn), le_rfl⟩
      exact fun n hn => Option.some.inj hn ▸ Nat.lt_succ_self _
    · cases h
  | read i merged =>
    simp only [InFlight.step] at h
    split at h
    · rename_i inputs out hi
      cases Option.some.inj h
      exact ⟨counted_set s _ i _ hs rfl le_rfl (below_deleting inputs _) hs.names, le_rfl⟩
    · rename_i inputs out zm hi
      cases Option.some.inj h
      have hout := (hs.jobs i).out out (by rw [hi]; rfl)
      exact ⟨counted_set s _ i _ hs rfl le_rfl (below_merging inputs out zm _ hout) hs.names,
        le_rfl⟩
    · cases h
  | perform i =>
    simp only [InFlight.step] at h
    split at h
    · cases h
    · rename_i st todo hi
      cases Option.some.inj h
      refine ⟨counted_set s _ i _ hs rfl le_rfl ((hs.jobs i).withTodo hi) fun n hn => ?_, le_rfl⟩
      cases named_of_mem_keys s.disk st n hn with
      | inl hold => exact hs.names n hold
      | inr hnamed => exact (hs.jobs i).named st (hi ▸ List.mem_cons_self) n hnamed
  | skip i =>
    simp only [InFlight.step] at h
    split at h
    · rename_i st todo hi
      cases Option.some.inj h
      have htodo : (s.jobs i).todo = st :: todo := by rw [hi]; rfl
      have hjob := (hs.jobs i).withTodo htodo
      rw [hi] at hjob
      exact ⟨counted_set s _ i _ hs rfl le_rfl hjob hs.names, le_rfl⟩
    · cases h
  | register i =>
    simp only [InFlight.step] at h
    split at h
    · cases Option.some.inj h
      exact ⟨counted_set s _ i _ hs rfl le_rfl (below_idle _) hs.names, le_rfl⟩
    · rename_i inputs m hi
      cases Option.some.inj h
      exact ⟨counted_set s _ i _ hs rfl le_rfl (below_deleting inputs _) hs.names, le_rfl⟩
    · cases h
  | fail i =>
    cases Option.some.inj h
    exact ⟨counted_set s _ i _ hs rfl le_rfl (below_idle _) hs.names, le_rfl⟩
  | crash =>
    cases Option.some.inj h
    exact ⟨counted_open s.disk, foldl_max_lt _ _ _ hs.pos hs.names⟩

/-- As long as fewer than 2^64 numbers are given out the counter does not wrap. -/
theorem run_atomicStep (acts : List JobAct) (s : InFlight) (hs : Counted s)
    (hfew : s.nextSeq + acts.countP JobAct.takesNumber < 2 ^ 64) :
    run InFlight.atomicStep s acts = run InFlight.step s acts := by
  induction acts generalizing s with
  | nil => rfl
  | cons a acts ih =>
    rw [List.countP_cons] at hfew
    cases hstep : s.step a with
    | none => simp [run, InFlight.atomicStep, hstep]
    | some t =>
      obtain ⟨ht, hle⟩ := counted_step s t a hs hstep
      have hwrap : t.nextSeq % 2 ^ 64 = t.nextSeq := Nat.mod_eq_of_lt (by omega)
      simp only [run, InFlight.atomicStep, hstep, Option.map_some, hwrap]
      exact ih t ht (by omega)

/-- Sequence numbers are never reused: in every state a run with failures and crashes
reaches in which fewer than 2^64 are given out, registered numbers differ and lie below the next
one, and a file about to be created has neither the number of a registered table nor that of a
compaction's input. -/
theorem numbers_never_reused (acts : List JobAct) (t : InFlight)
    (hfew : acts.countP JobAct.takesNumber + 1 < 2 ^ 64)
    (h : run InFlight.atomicStep (InFlight.open Disk.empty) acts = some t) :
    (t.sstables.map SSTableMeta.seq).Nodup ∧ (∀ m ∈ t.sstables, m.seq < t.nextSeq) ∧
      ∀ i kind n todo, (t.jobs i).todo = .create kind n :: todo →
        (∀ m ∈ t.sstables, m.seq ≠ n) ∧ ∀ j, ∀ m ∈ (t.jobs j).inputs, m.seq ≠ n := by
  rw [run_atomicStep acts _ (counted_open Disk.empty) (by rwa [Nat.add_comm] at hfew)] at h
  have ht := run_invariant InFlight.step (fun _ _ => True) Unreused
    (fun s a t hs _ hstep => unreused_step s t a hs hstep) acts _ t
    (unreused_open Disk.empty) (along_true _ _ acts) h
  refine ⟨ht.distinct, ht.below, ?_⟩
  intro i kind n todo htodo
  have hout := ht.aimed i kind n (htodo ▸ List.mem_cons_self)
  exact ⟨ht.unregistered i n hout, ht.uninput i n hout⟩

/-- Two flushes at once of which the first never gets past its parquet file, a crash, two
more flushes, and a flush beside a compaction that is about to create its output. -/
def busyRun : List JobAct :=
  ([.flush 0 .new, .flush 1 .new, .perform 0] : List JobAct) ++
    (List.replicate 6 (.perform 1) : List JobAct) ++
    ([.register 1, .crash, .flush 0 .new] : List JobAct) ++
    (List.replicate 6 (.perform 0) : List JobAct) ++
    ([.register 0, .drain 0, .number 0, .read 0 (some .new), .flush 1 .new] : List JobAct) ++
    (List.replicate 6 (.perform 1) : List JobAct) ++ ([.register 1] : List JobAct)

theorem numbers_never_reused_busy :
    ∃ t, run InFlight.atomicStep (InFlight.open Disk.empty) busyRun = some t ∧
      t.sstables.map SSTableMeta.seq = [5] ∧ t.nextSeq = 6 ∧
      (t.jobs 0).todo.head? = some (.create .parquet 4) ∧
      (∀ m ∈ t.sstables, m.seq ≠ 4) ∧ ∀ j, ∀ m ∈ (t.jobs j).inputs, m.seq ≠ 4 := by
  have hrun : (run InFlight.atomicStep (InFlight.open Disk.empty) busyRun).map (fun t =>
      (t.sstables.map SSTableMeta.seq, t.nextSeq, (t.jobs 0).todo.head?)) =
        some ([5], 6, some (.create .parquet 4)) := rfl
  obtain ⟨t, ht, hshape⟩ := Option.map_eq_some_iff.mp hrun
  obtain ⟨hseqs, hrest⟩ := Prod.mk.inj hshape
  obtain ⟨hnext, hhead⟩ := Prod.mk.inj hrest
  obtain ⟨todo, htodo⟩ := List.head?_eq_some_iff.mp hhead
  exact ⟨t, ht, hseqs, hnext, hhead,
    (numbers_never_reused busyRun t (by decide) ht).2.2 0 .parquet 4 todo htodo⟩

/-! ### Directories whose files are all written -/

def Dir.disk {ρ : Type} (d : Dir ρ) : Disk where
  parquet := d.parquet.keys
  bloom := d.bloom.keys
  zonemap := ⟨d.zonemap.entries.map fun e => ⟨e.1, some e.2⟩, by
    have hn := d.zonemap.keys_nodup
    simpa [List.NodupKeys, List.keys, AList.keys, List.map_map, Function.comp_def] using hn⟩

theorem open_disk {ρ : Type} (d : Dir ρ) :
    (InFlight.open d.disk).sstables = (SignalPartition.open d).sstables ∧
      (InFlight.open d.disk).nextSeq = (SignalPartition.open d).nextSeq := by
  refine ⟨?_, ?_⟩
  · simp only [InFlight.open, Disk.registered, Dir.disk, SignalPartition.open,
      List.filterMap_map, Function.comp_def, Option.map_some, List.filterMap_eq_map']
  · simp only [InFlight.open, Disk.nextSeq, Dir.disk, SignalPartition.open, AList.keys,
      List.keys, List.map_map, Function.comp_def]

end InfraLens.Tables
