import InfraLens.Concurrent
import InfraLens.PartitionKeys

/-! Which partition a record can be in. Any number of tasks call `write_batch` while the flush
worker and `close` run beside them; a memtable keeps the partition it was made for, whoever holds
it, and its rows and the SSTables written from it are of that partition's bucket. -/
namespace InfraLens.Storage
open Model LibRun

variable {ι ρ : Type}

/-- The memtable a writer holds, under the partition it holds it for. -/
def Pc.place (env : Env ρ) : Pc ρ → Option (UInt64 × Nat)
  | .idle => none
  | .loop => none
  | .fetched r mem => some (env.key r, mem)
  | .appended r mem => some (env.key r, mem)
  | .inserted key mem => some (key, mem)
  | .full key mem => some (key, mem)
  | .frozen key mem => some (key, mem)

/-- Every way the engine can reach a memtable, with the partition it takes it to be of. -/
inductive Engine.Refers (env : Env ρ) (s : Engine ι ρ) (p : UInt64) (mem : Nat) : Prop
  | active (h : s.memtables.lookup p = some mem)
  | writer (i : ι) (h : (s.writers i).pc.place env = some (p, mem))
  | queued (h : ⟨mem, p⟩ ∈ s.queue)
  | flushing (stage : Stage) (h : s.worker = some (⟨mem, p⟩, stage))
  | closing (keys : List UInt64) (h : s.closer = .sending mem p keys)

def Env.RowsOf (env : Env ρ) (p : UInt64) (m : MemTable) : Prop :=
  ∀ e ∈ m.inner.entries, ∃ r, env.key r = p ∧ e.1.timestampNs = env.timestampNs r ∧
    e.1.signalType = (env.signalType r).toU8 ∧ e.2 = env.serialize r

/-- The SSTable has records of its partition and signal only, as they are read back. -/
def Env.RecordsOf (env : Env ρ) (tab : SSTable ρ) : Prop :=
  ∀ r ∈ tab.records, ∃ w, env.key w = tab.partition ∧ env.signalType w = tab.signalType ∧
    env.reread w = some r

/-- Every memtable has one partition, its home: it is held for that partition only and has rows
of it only. -/
structure Routed (env : Env ρ) (home : Nat → UInt64) (s : Engine ι ρ) : Prop where
  held : ∀ p mem, s.Refers env p mem → mem < s.nextId ∧ home mem = p
  rows : ∀ mem < s.nextId, env.RowsOf (home mem) (s.heap mem)
  tables : ∀ tab ∈ s.sstables, env.RecordsOf tab

section Rows
variable (env : Env ρ)

theorem rowsOf_new (p : UInt64) (size : Nat) : env.RowsOf p (MemTable.new size) := by
  intro e he
  simp [MemTable.new, LibMap.BTreeMap.empty] at he

theorem rowsOf_write (m : MemTable) (r : ρ) (h : env.RowsOf (env.key r) m) :
    env.RowsOf (env.key r) (env.write m r) := by
  intro e he
  have hperm := insert_entries_perm m (env.timestampNs r) (env.signalType r).toU8 (env.serialize r)
  obtain rfl | hold := List.mem_cons.mp (hperm.mem_iff.mp he)
  · exact ⟨r, rfl, rfl, rfl, rfl⟩
  · exact h e hold

theorem recordsOf_decodeRows (p : UInt64) (m : MemTable) (sig : SignalType) (seq : Nat)
    (h : env.RowsOf p m) : env.RecordsOf ⟨p, sig, seq, env.decodeRows m sig⟩ := by
  intro r hr
  obtain ⟨row, hrow, hdecode⟩ := List.mem_filterMap.mp hr
  obtain ⟨hmem, hsig⟩ := List.mem_filter.mp hrow
  obtain ⟨w, hkey, -, htype, hdata⟩ := h row hmem
  have hw : env.signalType w = sig := by
    apply SignalType.toU8_inj
    rw [← htype]
    simpa using hsig
  refine ⟨w, hkey, hw, ?_⟩
  rw [Env.reread, hw, ← hdata]
  exact hdecode

end Rows

section Steps
variable (env : Env ρ) (s t : Engine ι ρ) (home : Nat → UInt64)

theorem routed_open : Routed env (fun _ => 0) (Engine.open env : Engine ι ρ) := by
  refine ⟨?_, ?_, ?_⟩
  · intro p mem href
    cases href with
    | active h => simp [Engine.open] at h
    | writer i h => simp [Engine.open, Pc.place] at h
    | queued h => simp [Engine.open] at h
    | flushing stage h => simp [Engine.open] at h
    | closing keys h => simp [Engine.open] at h
  · intro mem hlt
    exact absurd hlt (Nat.not_lt_zero mem)
  · simp [Engine.open]

theorem routed_keep (hs : Routed env home s) (hheap : t.heap = s.heap)
    (hnext : t.nextId = s.nextId) (htab : t.sstables = s.sstables)
    (href : ∀ p mem, t.Refers env p mem → s.Refers env p mem) : Routed env home t :=
  ⟨fun p mem h => hnext ▸ hs.held p mem (href p mem h),
    fun mem hlt => by rw [hheap]; exact hs.rows mem (hnext ▸ hlt), htab ▸ hs.tables⟩

theorem routed_alloc (hs : Routed env home s) (key : UInt64)
    (hheap : t.heap = Function.update s.heap s.nextId (MemTable.new env.memtableSizeBytes))
    (hnext : t.nextId = s.nextId + 1) (htab : t.sstables = s.sstables)
    (href : ∀ p mem, t.Refers env p mem → s.Refers env p mem ∨ (mem = s.nextId ∧ p = key)) :
    Routed env (Function.update home s.nextId key) t := by
  refine ⟨?_, ?_, htab ▸ hs.tables⟩
  · intro p mem h
    rw [hnext]
    obtain hold | ⟨rfl, rfl⟩ := href p mem h
    · obtain ⟨hlt, hhome⟩ := hs.held p mem hold
      rw [Function.update_of_ne (Nat.ne_of_lt hlt)]
      exact ⟨Nat.lt_succ_of_lt hlt, hhome⟩
    · exact ⟨Nat.lt_succ_self _, Function.update_self _ _ _⟩
  · intro mem hlt
    rw [hheap]
    by_cases hnew : mem = s.nextId
    · rw [hnew, Function.update_self, Function.update_self]
      exact rowsOf_new env key _
    · rw [Function.update_of_ne hnew, Function.update_of_ne hnew]
      exact hs.rows mem (by omega)

theorem lookup_alloc (key p : UInt64) (mem : Nat)
    (h : (s.alloc env key).memtables.lookup p = some mem) :
    s.memtables.lookup p = some mem ∨ (mem = s.nextId ∧ p = key) := by
  by_cases hp : p = key
  · rw [hp, Engine.alloc, AList.lookup_insert] at h
    cases h
    exact Or.inr ⟨rfl, hp⟩
  · rw [Engine.alloc, AList.lookup_insert_ne hp] at h
    exact Or.inl h

theorem lookup_erase (key p : UInt64) (mem : Nat)
    (h : (s.memtables.erase key).lookup p = some mem) : s.memtables.lookup p = some mem := by
  by_cases hp : p = key
  · rw [hp, AList.lookup_erase] at h
    cases h
  · rwa [AList.lookup_erase_ne hp] at h

theorem refers_others (hw : t.writers = s.writers)
    (hmap : ∀ p mem, t.memtables.lookup p = some mem → s.memtables.lookup p = some mem)
    (hqueue : ∀ req ∈ t.queue, s.Refers env req.partition req.imm)
    (hworker : ∀ req stage, t.worker = some (req, stage) → s.Refers env req.partition req.imm)
    (hcloser : ∀ mem key keys, t.closer = .sending mem key keys → s.Refers env key mem)
    (p : UInt64) (mem : Nat) (h : t.Refers env p mem) : s.Refers env p mem := by
  cases h with
  | active h => exact .active (hmap p mem h)
  | writer j h => exact .writer j (hw ▸ h)
  | queued h => exact hqueue _ h
  | flushing stage h => exact hworker _ stage h
  | closing keys h => exact hcloser mem p keys h

theorem routed_flush (hs : Routed env home s) (req : FlushRequest) (stage : Stage)
    (sig : SignalType) (stage' : Stage) (hw : s.worker = some (req, stage)) :
    Routed env home
      { s.flushSignal env req sig with
        worker := some (req, stage'), drained := (req.imm, sig) :: s.drained } := by
  have hmine : s.Refers env req.partition req.imm := .flushing stage hw
  obtain ⟨hlt, hhome⟩ := hs.held _ _ hmine
  have hkept (tables : List (SSTable ρ)) (seqs : UInt64 → SignalType → Nat)
      (htab : ∀ tab ∈ tables, env.RecordsOf tab) :
      Routed env home
        { s with
          sstables := tables, nextSeq := seqs, worker := some (req, stage'),
          drained := (req.imm, sig) :: s.drained } := by
    refine ⟨?_, hs.rows, htab⟩
    intro p m href
    apply hs.held p m
    refine refers_others env s _ ?_ ?_ ?_ ?_ ?_ p m href
    · rfl
    · exact fun _ _ h => h
    · exact fun _ h => .queued h
    · intro req' st hreq
      cases hreq
      exact hmine
    · exact fun _ _ _ h => .closing _ h
  by_cases hrows : (s.heap req.imm).drainSignal sig.toU8 = []
  · rw [Engine.flushSignal, if_pos hrows]
    exact hkept _ _ hs.tables
  · rw [Engine.flushSignal, if_neg hrows]
    apply hkept
    intro tab htab
    obtain hold | hnew := List.mem_append.mp htab
    · exact hs.tables tab hold
    · rw [List.mem_singleton.mp hnew]
      exact recordsOf_decodeRows env _ _ sig _ (hhome ▸ hs.rows req.imm hlt)

variable [DecidableEq ι]

theorem place_update (i : ι) (w : Writer ρ) (j : ι) (p : UInt64) (mem : Nat)
    (h : (Function.update s.writers i w j).pc.place env = some (p, mem)) :
    w.pc.place env = some (p, mem) ∨ (s.writers j).pc.place env = some (p, mem) := by
  by_cases hj : j = i
  · rw [hj, Function.update_self] at h
    exact Or.inl h
  · rw [Function.update_of_ne hj] at h
    exact Or.inr h

theorem refers_setWriter (i : ι) (w : Writer ρ) (hw : t.writers = Function.update s.writers i w)
    (hmap : t.memtables = s.memtables) (hqueue : t.queue = s.queue) (hworker : t.worker = s.worker)
    (hcloser : t.closer = s.closer)
    (hpc : ∀ p mem, w.pc.place env = some (p, mem) → s.Refers env p mem) (p : UInt64) (mem : Nat)
    (h : t.Refers env p mem) : s.Refers env p mem := by
  cases h with
  | active h => exact .active (hmap ▸ h)
  | writer j h =>
    rw [hw] at h
    obtain hnew | hold := place_update env s i w j p mem h
    · exact hpc p mem hnew
    · exact .writer j hold
  | queued h => exact .queued (hqueue ▸ h)
  | flushing stage h => exact .flushing stage (hworker ▸ h)
  | closing keys h => exact .closing keys (hcloser ▸ h)

theorem refers_alloc (i : ι) (w : Writer ρ) (key : UInt64)
    (hpc : ∀ p mem, w.pc.place env = some (p, mem) →
      s.Refers env p mem ∨ (mem = s.nextId ∧ p = key)) (p : UInt64) (mem : Nat)
    (h : ((s.alloc env key).setWriter i w).Refers env p mem) :
    s.Refers env p mem ∨ (mem = s.nextId ∧ p = key) := by
  cases h with
  | active h => exact (lookup_alloc env s key p mem h).imp_left .active
  | writer j h =>
    obtain hnew | hold := place_update env s i w j p mem h
    · exact hpc p mem hnew
    · exact Or.inl (.writer j hold)
  | queued h => exact Or.inl (.queued h)
  | flushing stage h => exact Or.inl (.flushing stage h)
  | closing keys h => exact Or.inl (.closing keys h)

theorem routed_write (hs : Routed env home s) (i : ι) (r : ρ) (mem : Nat) (done todo : List ρ)
    (hw : s.writers i = ⟨.appended r mem, done, todo⟩) :
    Routed env home
      { s.setWriter i ⟨.inserted (env.key r) mem, done ++ [r], todo⟩ with
        heap := Function.update s.heap mem (env.write (s.heap mem) r)
        written := s.written ++ [r] } := by
  have hmine : s.Refers env (env.key r) mem := .writer i (by rw [hw]; rfl)
  obtain ⟨hlt, hhome⟩ := hs.held _ _ hmine
  refine ⟨?_, ?_, hs.tables⟩
  · intro p m href
    apply hs.held p m
    refine refers_setWriter env s _ i ⟨.inserted (env.key r) mem, done ++ [r], todo⟩
      ?_ ?_ ?_ ?_ ?_ ?_ p m href
    case refine_6 =>
      intro p m hplace
      cases hplace
      exact hmine
    all_goals rfl
  · intro m hm
    by_cases he : m = mem
    · simp only [he, Function.update_self, hhome]
      exact rowsOf_write env (s.heap mem) r (hhome ▸ hs.rows mem hlt)
    · simp only [Function.update_of_ne he]
      exact hs.rows m hm

theorem routed_step (a : Action ι ρ) (hs : ∃ home, Routed env home s)
    (h : step env s a = some t) : ∃ home, Routed env home t := by
  obtain ⟨home, hs⟩ := hs
  -- a writer that goes on with what it held, or lets it go
  have hgoOn (i : ι) (w : Writer ρ) (u : Engine ι ρ)
      (hu : u.writers = Function.update s.writers i w)
      (hpc : ∀ p mem, w.pc.place env = some (p, mem) → s.Refers env p mem)
      (hframe : u.memtables = s.memtables ∧ u.queue = s.queue ∧ u.worker = s.worker ∧
        u.closer = s.closer ∧ u.heap = s.heap ∧ u.nextId = s.nextId ∧ u.sstables = s.sstables) :
      ∃ home, Routed env home u := by
    obtain ⟨hm, hq, hk, hc, hheap, hnext, htab⟩ := hframe
    exact ⟨home, routed_keep env s u home hs hheap hnext htab
      (refers_setWriter env s u i w hu hm hq hk hc hpc)⟩
  have hheld (i : ι) (pc : Pc ρ) (done todo : List ρ) (hw : s.writers i = ⟨pc, done, todo⟩)
      (p : UInt64) (mem : Nat) (hplace : pc.place env = some (p, mem)) : s.Refers env p mem :=
    .writer i (by rw [hw]; exact hplace)
  cases stepped_of_step env s a t h with
  | refused i batch hpc hc => exact ⟨home, hs⟩
  | begin i batch hpc hc =>
    exact hgoOn i _ _ rfl (by simp [Pc.place]) ⟨rfl, rfl, rfl, rfl, rfl, rfl, rfl⟩
  | fetchOld i done r todo mem hw hl =>
    refine hgoOn i _ _ rfl ?_ ⟨rfl, rfl, rfl, rfl, rfl, rfl, rfl⟩
    intro p m hplace
    cases hplace
    exact .active hl
  | fetchNew i done r todo hw hl =>
    refine ⟨_, routed_alloc env s _ home hs (env.key r) rfl rfl rfl
      (refers_alloc env s i _ (env.key r) ?_)⟩
    intro p m hplace
    cases hplace
    exact Or.inr ⟨rfl, rfl⟩
  | append i r mem done todo hw =>
    exact hgoOn i _ _ rfl (fun p m hplace => hheld i _ done todo hw p m hplace)
      ⟨rfl, rfl, rfl, rfl, rfl, rfl, rfl⟩
  | insert i r mem done todo hw =>
    exact ⟨home, routed_write env s home hs i r mem done todo hw⟩
  | testFull i key mem done todo hw hf =>
    exact hgoOn i _ _ rfl (fun p m hplace => hheld i _ done todo hw p m hplace)
      ⟨rfl, rfl, rfl, rfl, rfl, rfl, rfl⟩
  | testRoom i key mem done todo hw hf =>
    exact hgoOn i _ _ rfl (by simp [Pc.place]) ⟨rfl, rfl, rfl, rfl, rfl, rfl, rfl⟩
  | replace i key mem done todo hw =>
    refine ⟨_, routed_alloc env s _ home hs key rfl rfl rfl (refers_alloc env s i _ key ?_)⟩
    intro p m hplace
    exact Or.inl (hheld i _ done todo hw p m hplace)
  | enqueue i key mem done todo hw hq =>
    refine ⟨home, routed_keep env s _ home hs rfl rfl rfl ?_⟩
    intro p m href
    cases href with
    | active h => exact .active h
    | writer j h =>
      obtain hnew | hold := place_update env s i _ j p m h
      · cases hnew
      · exact .writer j hold
    | queued h =>
      obtain hold | hnew := List.mem_append.mp h
      · exact .queued hold
      · cases List.mem_singleton.mp hnew
        exact hheld i _ done todo hw _ _ rfl
    | flushing stage h => exact .flushing stage h
    | closing keys h => exact .closing keys h
  | dropped i key mem done todo hw hq =>
    exact hgoOn i _ _ rfl (by simp [Pc.place]) ⟨rfl, rfl, rfl, rfl, rfl, rfl, rfl⟩
  | finish i done hw =>
    exact hgoOn i _ _ rfl (by simp [Pc.place]) ⟨rfl, rfl, rfl, rfl, rfl, rfl, rfl⟩
  | recv req queue hw hq =>
    refine ⟨home, routed_keep env s _ home hs rfl rfl rfl (refers_others env s _ rfl
      (fun _ _ h => h) (fun req' h => .queued (by rw [hq]; exact List.mem_cons_of_mem _ h)) ?_
      (fun _ _ _ h => .closing _ h))⟩
    intro req' stage hreq
    cases hreq
    exact .queued (by rw [hq]; exact List.mem_cons_self)
  | flush req stage sig stage' hw hn =>
    exact ⟨home, routed_flush env s home hs req stage sig stage' hw⟩
  | flushError req stage sig stage' hw hn =>
    exact ⟨home, routed_keep env s _ home hs rfl rfl rfl (refers_others env s _ rfl
      (fun _ _ h => h) (fun _ h => .queued h) (by simp) (fun _ _ _ h => .closing _ h))⟩
  | checkpoint req hw hwal =>
    exact ⟨home, routed_keep env s _ home hs rfl rfl rfl (refers_others env s _ rfl
      (fun _ _ h => h) (fun _ h => .queued h) (by simp) (fun _ _ _ h => .closing _ h))⟩
  | noWal req hw hwal =>
    exact ⟨home, routed_keep env s _ home hs rfl rfl rfl (refers_others env s _ rfl
      (fun _ _ h => h) (fun _ h => .queued h) (by simp) (fun _ _ _ h => .closing _ h))⟩
  | close hc =>
    exact ⟨home, routed_keep env s _ home hs rfl rfl rfl (refers_others env s _ rfl
      (fun _ _ h => h) (fun _ h => .queued h) (fun _ _ h => .flushing _ h) (by simp))⟩
  | listKeys hc =>
    exact ⟨home, routed_keep env s _ home hs rfl rfl rfl (refers_others env s _ rfl
      (fun _ _ h => h) (fun _ h => .queued h) (fun _ _ h => .flushing _ h) (by simp))⟩
  | absent key keys hc hl =>
    exact ⟨home, routed_keep env s _ home hs rfl rfl rfl (refers_others env s _ rfl
      (fun _ _ h => h) (fun _ h => .queued h) (fun _ _ h => .flushing _ h) (by simp))⟩
  | letGo key keys mem hc hl he =>
    exact ⟨home, routed_keep env s _ home hs rfl rfl rfl (refers_others env s _ rfl
      (lookup_erase s key) (fun _ h => .queued h) (fun _ _ h => .flushing _ h) (by simp))⟩
  | remove key keys mem hc hl he =>
    refine ⟨home, routed_keep env s _ home hs rfl rfl rfl (refers_others env s _ rfl
      (lookup_erase s key) (fun _ h => .queued h) (fun _ _ h => .flushing _ h) ?_)⟩
    intro m k ks hsend
    cases hsend
    exact .active hl
  | send mem key keys hc hq =>
    refine ⟨home, routed_keep env s _ home hs rfl rfl rfl (refers_others env s _ rfl
      (fun _ _ h => h) ?_ (fun _ _ h => .flushing _ h) (by simp))⟩
    intro req hreq
    obtain hold | hnew := List.mem_append.mp hreq
    · exact .queued hold
    · rw [List.mem_singleton.mp hnew]
      exact .closing keys hc
  | ret hc =>
    exact ⟨home, routed_keep env s _ home hs rfl rfl rfl (refers_others env s _ rfl
      (fun _ _ h => h) (fun _ h => .queued h) (fun _ _ h => .flushing _ h) (by simp))⟩

theorem routed_run (acts : List (Action ι ρ)) (t : Engine ι ρ)
    (h : run (step env) (Engine.open env) acts = some t) : ∃ home, Routed env home t :=
  run_invariant (step env) (fun _ _ => True) (fun s => ∃ home, Routed env home s)
    (fun s a u hs _ hstep => routed_step env s u a hs hstep) acts (Engine.open env) t
    ⟨_, routed_open env⟩ (along_true _ _ _) h

end Steps

def Config.InBucket (cfg : Config) (p timestampNs : UInt64) : Prop :=
  p.toNat ≤ timestampNs.toNat ∧ timestampNs.toNat < p.toNat + cfg.bucketNs.toNat

theorem inBucket_key (cfg : Config) (r : Record) :
    cfg.InBucket (cfg.env.key r) r.timestampNs :=
  partitionKey_bounds r.timestampNs cfg.bucketNs cfg.bucket_ne

theorem inBucket_of_rowsOf (cfg : Config) (p : UInt64) (m : MemTable) (h : cfg.env.RowsOf p m)
    (e : RowKey × List UInt8) (he : e ∈ m.inner.entries) : cfg.InBucket p e.1.timestampNs := by
  obtain ⟨r, hkey, hts, -, -⟩ := h e he
  rw [hts, ← hkey]
  exact inBucket_key cfg r

theorem inBucket_of_recordsOf (cfg : Config) (tab : SSTable Record) (h : cfg.env.RecordsOf tab)
    (r : Record) (hr : r ∈ tab.records) :
    r.signalType = tab.signalType ∧ cfg.InBucket tab.partition r.timestampNs := by
  obtain ⟨w, hkey, hsig, hread⟩ := h r hr
  by_cases hplain : w.NoAnyValue
  · rw [reread_of_noAnyValue cfg w hplain] at hread
    cases hread
    rw [← hkey]
    exact ⟨hsig, inBucket_key cfg r⟩
  · rw [reread_of_anyValue cfg w hplain] at hread
    cases hread

/-- In every state the engine can reach, with any number of writers and whatever the order of their
steps: no memtable is held for two partitions, its rows are of the bucket it is held for, and a
registered SSTable has records of its own signal and bucket only. -/
theorem run_in_bucket [DecidableEq ι] (cfg : Config) (acts : List (Action ι Record))
    (t : Engine ι Record) (h : run (step cfg.env) (Engine.open cfg.env) acts = some t) :
    (∀ p p' mem, t.Refers cfg.env p mem → t.Refers cfg.env p' mem → p = p') ∧
    (∀ p mem, t.Refers cfg.env p mem →
      ∀ e ∈ (t.heap mem).inner.entries, cfg.InBucket p e.1.timestampNs) ∧
    ∀ tab ∈ t.sstables, ∀ r ∈ tab.records,
      r.signalType = tab.signalType ∧ cfg.InBucket tab.partition r.timestampNs := by
  obtain ⟨home, ht⟩ := routed_run cfg.env acts t h
  refine ⟨?_, ?_, ?_⟩
  · intro p p' mem href href'
    rw [← (ht.held p mem href).2, (ht.held p' mem href').2]
  · intro p mem href
    obtain ⟨hlt, hhome⟩ := ht.held p mem href
    exact inBucket_of_rowsOf cfg p _ (hhome ▸ ht.rows mem hlt)
  · intro tab htab
    exact inBucket_of_recordsOf cfg tab (ht.tables tab htab)

/-- Two calls that insert into one memtable in turn, and the flush of it. -/
theorem run_in_bucket_inTurn :
    ∃ t, run (step smallConfig.env) (Engine.open smallConfig.env) inTurn = some t ∧
      ∀ tab ∈ t.sstables, ∀ r ∈ tab.records,
        r.signalType = tab.signalType ∧ smallConfig.InBucket tab.partition r.timestampNs :=
  ⟨_, rfl, (run_in_bucket smallConfig inTurn _ rfl).2.2⟩

end InfraLens.Storage
