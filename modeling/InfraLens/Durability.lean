import InfraLens.WalRecovery
import InfraLens.Calls
import InfraLens.NoLoss
import InfraLens.Concurrent

/-! What a replay of the log brings back: with one writer every acknowledged record is in
an SSTable or among the replayed entries, if each checkpoint comes when all earlier
entries of its partition are in SSTables. -/
namespace InfraLens.Storage
open Model LibRun LibLedger WalFile

variable {ρ : Type}

/-! ### One log file -/

/-- A log file holds the frames of `es`. -/
structure Logged (crc : List UInt8 → UInt32) (file : Option (List UInt8))
    (es : List WalEntry) : Prop where
  short : ∀ e ∈ es, e.data.length < 2 ^ 32
  bytes : file.getD [] = frames crc es
  absent : file = none → es = []

theorem logged_append (crc : List UInt8 → UInt32) (file : Option (List UInt8))
    (es : List WalEntry) (e : WalEntry) (h : Logged crc file es) (he : e.data.length < 2 ^ 32) :
    Logged crc (some (file.getD [] ++ frame crc e)) (es ++ [e]) := by
  refine ⟨?_, ?_, by intro hn; cases hn⟩
  · intro e' he'
    cases List.mem_append.mp he' with
    | inl hm => exact h.short e' hm
    | inr hm => exact List.mem_singleton.mp hm ▸ he
  · rw [Option.getD_some, h.bytes, frames_append]
    simp [frames]

theorem recover_logged (crc : List UInt8 → UInt32) (file : Option (List UInt8))
    (es : List WalEntry) (h : Logged crc file es) :
    recover crc file = .ok (es.foldl replay []) := by
  cases file with
  | none =>
    rw [h.absent rfl]
    rfl
  | some bytes =>
    have hb : bytes = frames crc es := h.bytes
    exact recover_framed crc es bytes ⟨h.short, [], by rw [hb, List.append_nil], Or.inl rfl⟩

theorem entryType_ne_checkpoint (sig : SignalType) : entryType sig ≠ entryCheckpoint := by
  cases sig <;> decide

theorem replay_entry (env : Env ρ) (es : List WalEntry) (r : ρ) :
    (es ++ [env.entry r]).foldl replay [] = es.foldl replay [] ++ [env.entry r] := by
  have hne : (env.entry r).entryType ≠ entryCheckpoint :=
    entryType_ne_checkpoint (env.signalType r)
  rw [List.foldl_append, List.foldl_cons, List.foldl_nil, replay, if_neg hne]

theorem replay_checkpoint (es : List WalEntry) :
    (es ++ [checkpointEntry]).foldl replay [] = [] := by
  rw [List.foldl_append]
  rfl

/-! ### Records of one partition -/

def atPartition (p : UInt64) (M : Multiset (UInt64 × ρ)) : Multiset ρ :=
  (M.filter fun x => x.1 = p).map Prod.snd

theorem atPartition_add (p : UInt64) (M N : Multiset (UInt64 × ρ)) :
    atPartition p (M + N) = atPartition p M + atPartition p N := by
  rw [atPartition, Multiset.filter_add, Multiset.map_add, atPartition, atPartition]

theorem atPartition_mono (p : UInt64) (M N : Multiset (UInt64 × ρ)) (h : M ≤ N) :
    atPartition p M ≤ atPartition p N :=
  Multiset.map_le_map (Multiset.filter_le_filter _ h)

theorem located_append (env : Env ρ) (rs rs' : List ρ) (sig : SignalType) :
    env.located (rs ++ rs') sig = env.located rs sig + env.located rs' sig := by
  simp [Env.located, ← Multiset.coe_add]

theorem located_mono (env : Env ρ) (rs rs' : List ρ) (sig : SignalType)
    (h : (rs : Multiset ρ) ≤ rs') : env.located rs sig ≤ env.located rs' sig := by
  have hf : ((rs.filter fun r => env.signalType r = sig : List ρ) : Multiset ρ) ≤
      (rs'.filter fun r => env.signalType r = sig : List ρ) := by
    rw [← Multiset.filter_coe, ← Multiset.filter_coe]
    exact Multiset.filter_le_filter _ h
  rw [Env.located, Env.located, ← Multiset.map_coe, ← Multiset.map_coe]
  exact Multiset.map_le_map hf

theorem atPartition_one (env : Env ρ) (r : ρ) (sig : SignalType) (h : env.signalType r = sig) :
    atPartition (env.key r) (env.located [r] sig) = {r} := by
  simp [Env.located, atPartition, h, Multiset.filter_singleton]

theorem atPartition_one_other (env : Env ρ) (r : ρ) (sig : SignalType) (p : UInt64)
    (h : env.signalType r ≠ sig ∨ env.key r ≠ p) : atPartition p (env.located [r] sig) = 0 := by
  by_cases hsig : env.signalType r = sig
  · have hp := h.resolve_left (not_not_intro hsig)
    simp [Env.located, atPartition, hsig, Multiset.filter_singleton, hp]
  · simp [Env.located, atPartition, hsig]

theorem atPartition_held (env : Env ρ) (s : Engine Unit ρ) (sig : SignalType)
    (held : Multiset (UInt64 × ρ)) (p : UInt64)
    (hrows : s.storedRows sig (s.holders sig) = held.map env.stored)
    (h : ∀ c ∈ s.holders sig, c.partition = p → (s.heap c.imm).isEmpty = true) :
    atPartition p held = 0 := by
  rw [atPartition, Multiset.map_eq_zero, Multiset.filter_eq_nil]
  intro x hx hp
  have hrow : env.stored x ∈ s.storedRows sig (s.holders sig) := by
    rw [hrows]
    exact Multiset.mem_map_of_mem env.stored hx
  obtain ⟨c, hc, hxc⟩ := Multiset.mem_bind.mp hrow
  obtain ⟨data, hdata, hxd⟩ := Multiset.mem_map.mp hxc
  have hpart : c.partition = p := (congrArg Prod.fst hxd).trans hp
  rw [rows_of_isEmpty _ (h c hc hpart)] at hdata
  exact Multiset.notMem_zero data hdata

/-! ### The invariant -/

def Pc.logged : Pc ρ → List ρ
  | .appended r _ => [r]
  | _ => []

/-- In every partition the records logged so far are covered by the SSTables and the
entries a replay returns. -/
def Durable (env : Env ρ) (s : Engine Unit ρ) : Prop :=
  ∀ p, ∃ es, Logged env.crc (s.wals p) es ∧
    ∀ sig, ∃ logged : Multiset ρ,
      atPartition p (env.located (s.written ++ (s.writers ()).pc.logged) sig) ≤
          atPartition p (s.registered sig) + logged ∧
        logged.map env.entry ≤ (es.foldl replay [] : List WalEntry)

/-- A checkpoint of a partition comes when none of its memtables that is active, waiting
for its flush, dropped or failed has rows, and no record of it is between the log and its
memtable. -/
def Timely (env : Env ρ) (s : Engine Unit ρ) : Action Unit ρ → Prop
  | .checkpoint => ∀ w ∈ s.worker,
      (∀ sig, ∀ h ∈ s.holders sig, h.partition = w.1.partition →
        (s.heap h.imm).isEmpty = true) ∧
      ∀ r ∈ (s.writers ()).pc.logged, env.key r ≠ w.1.partition
  | _ => True

instance (env : Env ρ) (s : Engine Unit ρ) : (a : Action Unit ρ) → Decidable (Timely env s a)
  | .checkpoint => inferInstanceAs (Decidable (∀ w ∈ s.worker,
      (∀ sig, ∀ h ∈ s.holders sig, h.partition = w.1.partition →
        (s.heap h.imm).isEmpty = true) ∧
      ∀ r ∈ (s.writers ()).pc.logged, env.key r ≠ w.1.partition))
  | .begin _ _ | .fetch _ | .append _ | .insert _ | .test _ | .replace _ | .enqueue _
  | .finish _ | .recv | .flush | .flushError | .close | .listKeys | .remove | .send
  | .ret => .isTrue trivial

def Env.Framed (env : Env ρ) (r : ρ) : Prop := (env.serialize r).length < 2 ^ 32

section Steps
variable (env : Env ρ) (s t : Engine Unit ρ)

theorem durable_open : Durable env (Engine.open env) := by
  intro p
  refine ⟨[], ⟨by simp, rfl, fun _ => rfl⟩, ?_⟩
  intro sig
  exact ⟨0, Multiset.zero_le _, Multiset.zero_le _⟩

theorem durable_keep (hs : Durable env s) (hwal : t.wals = s.wals)
    (hw : t.written ++ (t.writers ()).pc.logged = s.written ++ (s.writers ()).pc.logged)
    (hreg : ∀ sig, s.registered sig ≤ t.registered sig) : Durable env t := by
  intro p
  obtain ⟨es, hes, hcover⟩ := hs p
  refine ⟨es, hwal ▸ hes, ?_⟩
  intro sig
  obtain ⟨logged, hle, hlog⟩ := hcover sig
  refine ⟨logged, ?_, hlog⟩
  rw [hw]
  exact hle.trans (add_le_add_left (atPartition_mono p _ _ (hreg sig)) _)

theorem durable_writer (hs : Durable env s) (w : Writer ρ)
    (hframe : (t.wals, t.written, t.sstables) = (s.wals, s.written, s.sstables))
    (hw : t.writers = Function.update s.writers () w) (hold : (s.writers ()).pc.logged = [])
    (hnew : w.pc.logged = []) : Durable env t := by
  simp only [Prod.mk.injEq] at hframe
  obtain ⟨hwal, hwritten, hreg⟩ := hframe
  refine durable_keep env s t hs hwal ?_ ?_
  · rw [hwritten, hw, Function.update_self, hold, hnew]
  · intro sig
    rw [Engine.registered, Engine.registered, hreg]

theorem durable_append (hs : Durable env s) (r : ρ) (mem : Nat) (done todo : List ρ)
    (hw : s.writers () = ⟨.fetched r mem, done, todo⟩)
    (hlen : (env.serialize r).length < 2 ^ 32) :
    Durable env ((s.appendWal env (env.key r) (env.entry r)).setWriter ()
      ⟨.appended r mem, done, todo⟩) := by
  intro p
  obtain ⟨es, hes, hcover⟩ := hs p
  have hold : s.written ++ (s.writers ()).pc.logged = s.written := by
    rw [hw]
    exact List.append_nil _
  rw [hold] at hcover
  by_cases hp : p = env.key r
  · subst hp
    refine ⟨es ++ [env.entry r], ?_, ?_⟩
    · have happ := logged_append env.crc (s.wals (env.key r)) es (env.entry r) hes hlen
      simpa [Engine.setWriter, Engine.appendWal] using happ
    · intro sig
      obtain ⟨logged, hle, hlog⟩ := hcover sig
      rw [replay_entry]
      refine ⟨logged + atPartition (env.key r) (env.located [r] sig), ?_, ?_⟩
      · simp only [Engine.setWriter, Engine.appendWal, Function.update_self, Pc.logged]
        rw [located_append, atPartition_add, ← add_assoc]
        exact add_le_add_left hle _
      · rw [Multiset.map_add, ← Multiset.coe_add]
        refine add_le_add hlog ?_
        by_cases hsig : env.signalType r = sig
        · rw [atPartition_one env r sig hsig]
          exact le_rfl
        · rw [atPartition_one_other env r sig (env.key r) (Or.inl hsig)]
          exact Multiset.zero_le _
  · refine ⟨es, ?_, ?_⟩
    · simpa [Engine.setWriter, Engine.appendWal, Function.update_of_ne hp] using hes
    · intro sig
      obtain ⟨logged, hle, hlog⟩ := hcover sig
      refine ⟨logged, ?_, hlog⟩
      have hnone : atPartition p (env.located [r] sig) = 0 :=
        atPartition_one_other env r sig p (Or.inr (Ne.symm hp))
      simp only [Engine.setWriter, Engine.appendWal, Function.update_self, Pc.logged]
      rw [located_append, atPartition_add, hnone, add_zero]
      exact hle

theorem durable_checkpoint (hs : Durable env s) (hfaithful : Faithful env) (hintact : Intact env s)
    (hsafe : Timely env s .checkpoint) (req : FlushRequest)
    (hw : s.worker = some (req, .checkpoint)) :
    Durable env { s.appendWal env req.partition checkpointEntry with worker := none } := by
  obtain ⟨hempty, hhand⟩ := hsafe (req, .checkpoint) hw
  intro p
  obtain ⟨es, hes, hcover⟩ := hs p
  by_cases hp : p = req.partition
  · subst hp
    refine ⟨es ++ [checkpointEntry], ?_, ?_⟩
    · have happ := logged_append env.crc (s.wals req.partition) es checkpointEntry hes
        (Nat.two_pow_pos 32)
      simpa [Engine.appendWal] using happ
    · intro sig
      rw [replay_checkpoint]
      refine ⟨0, ?_, by simp⟩
      obtain ⟨held, hbal, hrows⟩ := rows_of_intact env s hfaithful hintact sig
      have hin : atPartition req.partition (env.located s.written sig) =
          atPartition req.partition (s.registered sig) := by
        rw [← hbal, atPartition_add, atPartition_held env s sig held _ hrows (hempty sig), zero_add]
      have hnone : atPartition req.partition
          (env.located (s.writers ()).pc.logged sig) = 0 := by
        rw [atPartition, Multiset.map_eq_zero, Multiset.filter_eq_nil]
        intro x hx hxp
        obtain ⟨r, hr, hrx⟩ := List.mem_map.mp (Multiset.mem_coe.mp hx)
        exact hhand r (List.mem_filter.mp hr).1 (by rw [← hxp, ← hrx])
      rw [located_append, atPartition_add, add_zero]
      exact (add_eq_left.mpr hnone).le.trans hin.le
  · refine ⟨es, ?_, hcover⟩
    simpa [Engine.appendWal, Function.update_of_ne hp] using hes

theorem durable_step (a : Action Unit ρ) (hs : Durable env s) (hfaithful : Faithful env)
    (hintact : Intact env s) (hcar : Carries env.Framed s) (hsafe : Timely env s a)
    (h : Stepped env s a t) : Durable env t := by
  cases h with
  | refused i batch hpc hc => exact hs
  | begin i batch hpc hc =>
    exact durable_writer env s _ hs _ rfl rfl (by rw [hpc]; rfl) rfl
  | fetchOld i done r todo mem hw hl =>
    exact durable_writer env s _ hs _ rfl rfl (by rw [hw]; rfl) rfl
  | fetchNew i done r todo hw hl =>
    exact durable_writer env s _ hs _ rfl rfl (by rw [hw]; rfl) rfl
  | append i r mem done todo hw =>
    exact durable_append env s hs r mem done todo hw (hcar.target () r mem (by rw [hw]; rfl))
  | insert i r mem done todo hw =>
    refine durable_keep env s _ hs rfl ?_ (fun _ => le_rfl)
    rw [hw]
    simp [Engine.setWriter, Pc.logged]
  | testFull i key mem done todo hw hf =>
    exact durable_writer env s _ hs _ rfl rfl (by rw [hw]; rfl) rfl
  | testRoom i key mem done todo hw hf =>
    exact durable_writer env s _ hs _ rfl rfl (by rw [hw]; rfl) rfl
  | replace i key mem done todo hw =>
    exact durable_writer env s _ hs _ rfl rfl (by rw [hw]; rfl) rfl
  | enqueue i key mem done todo hw hq =>
    exact durable_writer env s _ hs _ rfl rfl (by rw [hw]; rfl) rfl
  | dropped i key mem done todo hw hq =>
    exact durable_writer env s _ hs _ rfl rfl (by rw [hw]; rfl) rfl
  | finish i done hw =>
    exact durable_writer env s _ hs _ rfl rfl (by rw [hw]; rfl) rfl
  | flush req stage sig stage' hw hn =>
    have hreg : ∀ sig', s.registered sig' ≤ (s.flushSignal env req sig).registered sig' := by
      intro sig'
      by_cases hsig : sig = sig'
      · subst hsig
        rw [registered_flushSignal]
        exact Multiset.le_add_right _ _
      · rw [registered_flushSignal_other env s req sig sig' hsig]
    obtain ⟨tables, seqs, he⟩ := flushSignal_eq env s req sig
    rw [he] at hreg ⊢
    exact durable_keep env s _ hs rfl rfl hreg
  | checkpoint req hw hwal => exact durable_checkpoint env s hs hfaithful hintact hsafe req hw
  | _ => exact durable_keep env s _ hs rfl rfl (fun _ => le_rfl)

end Steps

theorem split_of_le (M R B : Multiset ρ) (h : M ≤ R + B) :
    ∃ A C, M = A + C ∧ A ≤ R ∧ C ≤ B := by
  classical
  refine ⟨M ∩ R, M - R, ?_, Multiset.inter_le_right, tsub_le_iff_left.mpr h⟩
  rw [add_comm]
  exact (Multiset.sub_add_inter M R).symm

/-- Writes and flushes, which may fail, of records the log frames, with timely checkpoints and
drained rows that decode. -/
def Checked (cfg : Config) (s : Engine Unit Record) (a : Action Unit Record) : Prop :=
  a.ofClose = false ∧ Batches cfg.env.Framed a ∧ Timely cfg.env s a ∧ Decodes cfg.env s a

instance (env : Env ρ) (r : ρ) : Decidable (env.Framed r) :=
  inferInstanceAs (Decidable (_ < _))

instance (cfg : Config) (s : Engine Unit Record) (a : Action Unit Record) :
    Decidable (Checked cfg s a) :=
  inferInstanceAs (Decidable
    (a.ofClose = false ∧ Batches cfg.env.Framed a ∧ Timely cfg.env s a ∧ Decodes cfg.env s a))

/-- In every partition and signal the acknowledged records are rows of registered SSTables
or among the entries the replay of the partition's log returns. -/
theorem acked_recoverable (cfg : Config) (acts : List (Action Unit Record))
    (t : Engine Unit Record)
    (hok : Along (step cfg.env) (Checked cfg) (Engine.open cfg.env) acts)
    (hrun : run (step cfg.env) (Engine.open cfg.env) acts = some t) (p : UInt64)
    (sig : SignalType) :
    ∃ entries flushed logged, recover cfg.crc (t.wals p) = .ok entries ∧
      atPartition p (cfg.env.located t.acked sig) = flushed + logged ∧
      flushed ≤ atPartition p (t.registered sig) ∧
      logged.map cfg.env.entry ≤ (entries : Multiset WalEntry) := by
  obtain ⟨-, -, htally, -, hdur⟩ := run_invariant (step cfg.env) (Checked cfg)
    (fun s => Intact cfg.env s ∧ Solo cfg.env s ∧ Tallied s ∧ Carries cfg.env.Framed s ∧
      Durable cfg.env s)
    (fun s a u hs hok h => by
      obtain ⟨hintact, hsolo, htally, hcar, hdur⟩ := hs
      obtain ⟨hclose, hframed, htimely, hdecodes⟩ := hok
      have hst := stepped_of_step cfg.env s a u h
      exact ⟨intact_step cfg.env s a u hintact (safe_of_solo cfg.env s a hintact.inv hsolo)
          hdecodes h,
        solo_step cfg.env s u a hsolo (calm_of_ofClose s a hclose) hst,
        tallied_step cfg.env s u a htally hst,
        carries_step _ cfg.env s u a hcar hframed hst,
        durable_step cfg.env s u a hdur (faithful_env cfg) hintact hcar htimely hst⟩)
    acts _ t ⟨intact_open _, solo_open _, tallied_open _, carries_open _ _, durable_open _⟩
    hok hrun
  obtain ⟨es, hes, hcover⟩ := hdur p
  obtain ⟨covered, hle, hlog⟩ := hcover sig
  have hacked : atPartition p (cfg.env.located t.acked sig) ≤
      atPartition p (cfg.env.located (t.written ++ (t.writers ()).pc.logged) sig) := by
    rw [located_append, atPartition_add]
    exact (atPartition_mono p _ _ (located_mono cfg.env _ _ sig (acked_le_written t htally))).trans
      (Multiset.le_add_right _ _)
  obtain ⟨flushed, logged, hsplit, hflushed, hlogged⟩ := split_of_le _ _ _ (hacked.trans hle)
  exact ⟨_, flushed, logged, recover_logged cfg.crc _ es hes, hsplit, hflushed,
    (Multiset.map_le_map hlogged).trans hlog⟩

def timelyCheckpoint : List (Action Unit Record) :=
  writeOne (log 5) ++ [.recv, .flush, .flush, .flush, .checkpoint] ++ writeOne (log 6)

theorem acked_recoverable_timely :
    ∃ t entries flushed logged,
      run (step tinyConfig.env) (Engine.open tinyConfig.env) timelyCheckpoint = some t ∧
      recover tinyConfig.crc (t.wals 0) = .ok entries ∧
      atPartition 0 (tinyConfig.env.located [log 5, log 6] .log) = flushed + logged ∧
      flushed ≤ atPartition 0 (t.registered .log) ∧
      logged.map tinyConfig.env.entry ≤ (entries : Multiset WalEntry) := by
  obtain ⟨entries, flushed, logged, h⟩ :=
    acked_recoverable tinyConfig timelyCheckpoint _ (by decide +kernel) rfl 0 .log
  exact ⟨_, entries, flushed, logged, rfl, h⟩

/-- The second record is written and acknowledged while the first is flushed; then the
checkpoint of that flush is appended. -/
def lateCheckpoint : List (Action Unit Record) :=
  writeOne (log 5) ++ [.recv, .flush, .flush, .flush] ++ writeOne (log 6) ++ [.checkpoint]

def lateEntries : List WalEntry :=
  [tinyConfig.env.entry (log 5), tinyConfig.env.entry (log 6), checkpointEntry]

/-- The replay returns nothing and the SSTables have the first record only: the second,
acknowledged, is in a queued memtable alone. -/
theorem late_checkpoint_discards :
    ∃ t, run (step tinyConfig.env) (Engine.open tinyConfig.env) lateCheckpoint = some t ∧
      t.acked.map Record.timestampNs = [5, 6] ∧
      recover tinyConfig.crc (t.wals 0) = .ok [] ∧
      ∀ sig, (t.registered sig).map (fun x => x.2.timestampNs) =
        if sig = .log then {5} else 0 := by
  have hfacts : ((run (step tinyConfig.env) (Engine.open tinyConfig.env) lateCheckpoint).map
      fun t => (t.acked.map Record.timestampNs, t.wals 0,
        decide (∀ sig, (t.registered sig).map (fun x => x.2.timestampNs) =
          if sig = .log then {5} else 0))) =
      some ([5, 6], some (frames tinyConfig.crc lateEntries), true) := by
    decide +kernel
  obtain ⟨t, hrun, ht⟩ := Option.map_eq_some_iff.mp hfacts
  simp only [Prod.mk.injEq, decide_eq_true_eq] at ht
  obtain ⟨hacked, hwal, hreg⟩ := ht
  have hlogged : Logged tinyConfig.crc (t.wals 0) lateEntries := by
    rw [hwal]
    exact ⟨by decide, rfl, by intro h; cases h⟩
  refine ⟨t, hrun, hacked, ?_, hreg⟩
  rw [recover_logged tinyConfig.crc _ _ hlogged]
  rfl

end InfraLens.Storage
