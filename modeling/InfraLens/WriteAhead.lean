import InfraLens.Durability

/-! The order of log and memtable: under every interleaving of the writers, the flush worker and
`close`, the log of a partition is made of whole frames, and its records are those inserted into
the partition's memtables so far and those whose insertion is the writer's next step. -/
namespace InfraLens.Storage
open Model LibRun WalFile

variable {ι ρ : Type}

def Env.entriesAt (env : Env ρ) (p : UInt64) (rs : List ρ) : Multiset WalEntry :=
  ((rs.filter fun r => env.key r = p).map env.entry : List WalEntry)

/-- In every partition the log is ahead of the memtables by the writers between the two. -/
def Ahead [Fintype ι] (env : Env ρ) (s : Engine ι ρ) : Prop :=
  ∀ p, ∃ es, (s.wals p).getD [] = frames env.crc es ∧
    (es.filter notCheckpoint : Multiset WalEntry) =
      env.entriesAt p s.written + ∑ i, env.entriesAt p (s.writers i).pc.logged

section Entries
variable (env : Env ρ)

@[simp] theorem entriesAt_nil (p : UInt64) : env.entriesAt p [] = 0 := rfl

theorem entriesAt_append (p : UInt64) (rs rs' : List ρ) :
    env.entriesAt p (rs ++ rs') = env.entriesAt p rs + env.entriesAt p rs' := by
  simp [Env.entriesAt]

theorem entriesAt_one (p : UInt64) (r : ρ) :
    env.entriesAt p [r] = if p = env.key r then {env.entry r} else 0 := by
  by_cases hp : p = env.key r
  · simp [Env.entriesAt, hp]
  · simp [Env.entriesAt, hp, Ne.symm hp]

theorem notCheckpoint_entry (r : ρ) : notCheckpoint (env.entry r) = true :=
  decide_eq_true (entryType_ne_checkpoint (env.signalType r))

end Entries

section Steps
variable [Fintype ι] (env : Env ρ) (s t : Engine ι ρ)

theorem ahead_open : Ahead env (Engine.open env : Engine ι ρ) := by
  intro p
  exact ⟨[], rfl, by simp [Engine.open, Pc.logged]⟩

theorem ahead_keep (hs : Ahead env s) (hwals : t.wals = s.wals) (hw : t.writers = s.writers)
    (hwritten : t.written = s.written) : Ahead env t := by
  intro p
  rw [hwals, hw, hwritten]
  exact hs p

omit [Fintype ι] in
theorem wals_append (key p : UInt64) (e : WalEntry) (es : List WalEntry)
    (h : (s.wals p).getD [] = frames env.crc es) :
    ((s.appendWal env key e).wals p).getD [] =
      frames env.crc (es ++ if p = key then [e] else []) := by
  by_cases hp : p = key
  · subst hp
    simp [Engine.appendWal, h, frames]
  · simp [Engine.appendWal, hp, h]

theorem ahead_checkpoint (hs : Ahead env s) (key : UInt64) :
    Ahead env { s.appendWal env key checkpointEntry with worker := none } := by
  intro p
  obtain ⟨es, hbytes, hentries⟩ := hs p
  refine ⟨_, wals_append env s key p checkpointEntry es hbytes, ?_⟩
  have hnone : (if p = key then [checkpointEntry] else []).filter notCheckpoint = [] := by
    split <;> rfl
  rw [List.filter_append, hnone, List.append_nil]
  exact hentries

variable [DecidableEq ι]

theorem sum_logged (p : UInt64) (i : ι) (w : Writer ρ) :
    (∑ j, env.entriesAt p (Function.update s.writers i w j).pc.logged) +
        env.entriesAt p (s.writers i).pc.logged =
      (∑ j, env.entriesAt p (s.writers j).pc.logged) + env.entriesAt p w.pc.logged :=
  sum_update s.writers i w fun v => env.entriesAt p v.pc.logged

theorem ahead_writer (hs : Ahead env s) (i : ι) (w : Writer ρ)
    (hw : t.writers = Function.update s.writers i w) (hwals : t.wals = s.wals)
    (hwritten : t.written = s.written) (hpc : w.pc.logged = (s.writers i).pc.logged) :
    Ahead env t := by
  intro p
  obtain ⟨es, hbytes, hentries⟩ := hs p
  refine ⟨es, by rw [hwals, hbytes], ?_⟩
  have hsum := sum_logged env s p i w
  rw [hpc] at hsum
  rw [hentries, hwritten, hw, add_right_cancel hsum]

theorem ahead_append (hs : Ahead env s) (i : ι) (r : ρ) (mem : Nat) (done todo : List ρ)
    (hw : s.writers i = ⟨.fetched r mem, done, todo⟩) :
    Ahead env ((s.appendWal env (env.key r) (env.entry r)).setWriter i
      ⟨.appended r mem, done, todo⟩) := by
  intro p
  obtain ⟨es, hbytes, hentries⟩ := hs p
  refine ⟨_, wals_append env s (env.key r) p (env.entry r) es hbytes, ?_⟩
  have hsum := sum_logged env s p i ⟨.appended r mem, done, todo⟩
  have hnew : ((if p = env.key r then [env.entry r] else []).filter notCheckpoint :
      Multiset WalEntry) = env.entriesAt p [r] := by
    rw [entriesAt_one]
    split <;> simp [notCheckpoint_entry]
  rw [hw] at hsum
  change _ + 0 = _ + env.entriesAt p [r] at hsum
  rw [List.filter_append, ← Multiset.coe_add, hentries, hnew, add_assoc, ← hsum, add_zero]
  rfl

theorem ahead_insert (hs : Ahead env s) (i : ι) (r : ρ) (mem : Nat) (done todo : List ρ)
    (hw : s.writers i = ⟨.appended r mem, done, todo⟩) :
    Ahead env
      { s.setWriter i ⟨.inserted (env.key r) mem, done ++ [r], todo⟩ with
        heap := Function.update s.heap mem (env.write (s.heap mem) r)
        written := s.written ++ [r] } := by
  intro p
  obtain ⟨es, hbytes, hentries⟩ := hs p
  refine ⟨es, hbytes, ?_⟩
  have hsum := sum_logged env s p i ⟨.inserted (env.key r) mem, done ++ [r], todo⟩
  rw [hw] at hsum
  change _ + env.entriesAt p [r] = _ + 0 at hsum
  rw [add_zero, add_comm] at hsum
  rw [hentries, ← hsum, ← add_assoc, ← entriesAt_append]
  rfl

theorem ahead_step (a : Action ι ρ) (hs : Ahead env s) (h : step env s a = some t) :
    Ahead env t := by
  cases stepped_of_step env s a t h with
  | refused i batch hpc hc => exact hs
  | begin i batch hpc hc => exact ahead_writer env s _ hs i _ rfl rfl rfl (by rw [hpc]; rfl)
  | fetchOld i done r todo mem hw hl =>
    exact ahead_writer env s _ hs i _ rfl rfl rfl (by rw [hw]; rfl)
  | fetchNew i done r todo hw hl =>
    exact ahead_writer env s _ hs i _ rfl rfl rfl (by rw [hw]; rfl)
  | append i r mem done todo hw => exact ahead_append env s hs i r mem done todo hw
  | insert i r mem done todo hw => exact ahead_insert env s hs i r mem done todo hw
  | testFull i key mem done todo hw hf =>
    exact ahead_writer env s _ hs i _ rfl rfl rfl (by rw [hw]; rfl)
  | testRoom i key mem done todo hw hf =>
    exact ahead_writer env s _ hs i _ rfl rfl rfl (by rw [hw]; rfl)
  | replace i key mem done todo hw =>
    exact ahead_writer env s _ hs i _ rfl rfl rfl (by rw [hw]; rfl)
  | enqueue i key mem done todo hw hq =>
    exact ahead_writer env s _ hs i _ rfl rfl rfl (by rw [hw]; rfl)
  | dropped i key mem done todo hw hq =>
    exact ahead_writer env s _ hs i _ rfl rfl rfl (by rw [hw]; rfl)
  | finish i done hw => exact ahead_writer env s _ hs i _ rfl rfl rfl (by rw [hw]; rfl)
  | flush req stage sig stage' hw hn =>
    obtain ⟨tables, seqs, he⟩ := flushSignal_eq env s req sig
    rw [he]
    exact ahead_keep env s _ hs rfl rfl rfl
  | checkpoint req hw hwal => exact ahead_checkpoint env s hs req.partition
  | recv req queue hw hq => exact ahead_keep env s _ hs rfl rfl rfl
  | flushError req stage sig stage' hw hn => exact ahead_keep env s _ hs rfl rfl rfl
  | noWal req hw hwal => exact ahead_keep env s _ hs rfl rfl rfl
  | close hc => exact ahead_keep env s _ hs rfl rfl rfl
  | listKeys hc => exact ahead_keep env s _ hs rfl rfl rfl
  | absent key keys hc hl => exact ahead_keep env s _ hs rfl rfl rfl
  | letGo key keys mem hc hl he => exact ahead_keep env s _ hs rfl rfl rfl
  | remove key keys mem hc hl he => exact ahead_keep env s _ hs rfl rfl rfl
  | send mem key keys hc hq => exact ahead_keep env s _ hs rfl rfl rfl
  | ret hc => exact ahead_keep env s _ hs rfl rfl rfl

end Steps

/-- In every state the engine can reach, with any number of writers: the log of a partition is a
sequence of whole frames, and its entries that are no checkpoints are those of the records of the
partition inserted so far and of the records between the append and the insertion. -/
theorem run_write_ahead [Fintype ι] [DecidableEq ι] (env : Env ρ) (acts : List (Action ι ρ))
    (t : Engine ι ρ) (h : run (step env) (Engine.open env) acts = some t) (p : UInt64) :
    ∃ es, (t.wals p).getD [] = frames env.crc es ∧
      (es.filter notCheckpoint : Multiset WalEntry) =
        env.entriesAt p t.written + ∑ i, env.entriesAt p (t.writers i).pc.logged :=
  run_invariant (step env) (fun _ _ => True) (Ahead env)
    (fun s a u hs _ hstep => ahead_step env s u a hs hstep) acts (Engine.open env) t
    (ahead_open env) (along_true _ _ _) h p

/-- The interleaving that loses a record from the memtables: all four records stay in the log. -/
theorem run_write_ahead_staleFetch :
    ∃ t, run (step smallConfig.env) (Engine.open smallConfig.env) staleFetch = some t ∧
      ∃ es, (t.wals 0).getD [] = frames smallConfig.crc es ∧
        (es.filter notCheckpoint : Multiset WalEntry) =
          smallConfig.env.entriesAt 0 t.written +
            ∑ i, smallConfig.env.entriesAt 0 (t.writers i).pc.logged :=
  ⟨_, rfl, run_write_ahead smallConfig.env staleFetch _ rfl 0⟩

end InfraLens.Storage
