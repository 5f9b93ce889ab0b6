import InfraLens.AccountingSteps

/-! The rows of the memtables as they are stored. A row that would not decode is in no ledger of
decoded records; as long as every row that is drained decodes, the engine moves as it would with a
decoder that reads every row, and the ledger of that decoder accounts for the others too. -/
namespace InfraLens.Storage
open Model LibRun LibLedger

variable {ι ρ : Type}

/-- The stored rows of some memtables, each with its memtable's partition. -/
def Engine.storedRows (s : Engine ι ρ) (sig : SignalType) (held : Multiset FlushRequest) :
    Multiset (UInt64 × List UInt8) :=
  held.bind fun h => ((s.heap h.imm).rows sig.toU8).map (Prod.mk h.partition)

/-- A record of a partition as the memtable has it. -/
def Env.stored (env : Env ρ) (x : UInt64 × ρ) : UInt64 × List UInt8 := (x.1, env.serialize x.2)

theorem storedRows_add (s : Engine ι ρ) (sig : SignalType) (A B : Multiset FlushRequest) :
    s.storedRows sig (A + B) = s.storedRows sig A + s.storedRows sig B :=
  Multiset.add_bind _ _ _

def Decodes (env : Env ρ) (s : Engine ι ρ) : Action ι ρ → Prop
  | .flush => ∀ w ∈ s.worker, ∀ n ∈ w.2.next, ∀ row ∈ (s.heap w.1.imm).drainSignal n.1.toU8,
      (env.deserialize n.1 row.2).isSome = true
  | _ => True

instance (env : Env ρ) (s : Engine ι ρ) : (a : Action ι ρ) → Decidable (Decodes env s a)
  | .flush => inferInstanceAs (Decidable (∀ w ∈ s.worker, ∀ n ∈ w.2.next,
      ∀ row ∈ (s.heap w.1.imm).drainSignal n.1.toU8,
        (env.deserialize n.1 row.2).isSome = true))
  | .begin _ _ | .fetch _ | .append _ | .insert _ | .test _ | .replace _ | .enqueue _
  | .finish _ | .recv | .flushError | .checkpoint | .close | .listKeys | .remove | .send
  | .ret => .isTrue trivial

def Faithful (env : Env ρ) : Prop := ∀ r r', env.reread r = some r' → r' = r

open Classical in
/-- The same records with a decoder that reads the encoding of every record. -/
noncomputable def Env.reader (env : Env ρ) : Env ρ :=
  { env with
    deserialize := fun sig data => (env.deserialize sig data).or
      (if h : ∃ r, env.signalType r = sig ∧ env.serialize r = data then some h.choose else none) }

section Reader
variable (env : Env ρ)

theorem reader_of_isSome (sig : SignalType) (data : List UInt8)
    (h : (env.deserialize sig data).isSome = true) :
    env.reader.deserialize sig data = env.deserialize sig data := by
  obtain ⟨r, hr⟩ := Option.isSome_iff_exists.mp h
  simp [Env.reader, hr]

theorem reader_serialize (hfaithful : Faithful env) (r : ρ) :
    ∃ r', env.reader.deserialize (env.signalType r) (env.serialize r) = some r' ∧
      env.serialize r' = env.serialize r := by
  cases hread : env.reread r with
  | some r' =>
    refine ⟨r', ?_, by rw [hfaithful r r' hread]⟩
    rw [reader_of_isSome env _ _ (Option.isSome_iff_exists.mpr ⟨r', hread⟩)]
    exact hread
  | none =>
    have hex : ∃ r', env.signalType r' = env.signalType r ∧ env.serialize r' = env.serialize r :=
      ⟨r, rfl, rfl⟩
    have hnone : env.deserialize (env.signalType r) (env.serialize r) = none := hread
    exact ⟨hex.choose, by simp [Env.reader, hnone, hex], hex.choose_spec.2⟩

/-- When every drained row decodes, both decoders take the same step. -/
theorem step_reader [DecidableEq ι] (s : Engine ι ρ) (a : Action ι ρ) (hok : Decodes env s a) :
    step env.reader s a = step env s a := by
  cases a with
  | flush =>
    cases hw : s.worker with
    | none => simp only [step, Engine.flush, hw]
    | some w =>
      obtain ⟨req, stage⟩ := w
      cases hn : stage.next with
      | none => simp only [step, Engine.flush, hw, hn]
      | some n =>
        obtain ⟨sig, stage'⟩ := n
        have hrows : env.reader.decodeRows (s.heap req.imm) sig =
            env.decodeRows (s.heap req.imm) sig :=
          List.filterMap_congr fun row hrow =>
            reader_of_isSome env sig row.2 (hok (req, stage) hw (sig, stage') hn row hrow)
        simp only [step, Engine.flush, hw, hn, Engine.flushSignal, hrows]
  | _ => rfl

/-- Every row of the signal is the encoding of a record. -/
def Encoded (s : Engine ι ρ) : Prop :=
  ∀ mem sig, ∀ data ∈ (s.heap mem).rows sig.toU8,
    ∃ r, env.signalType r = sig ∧ env.serialize r = data

theorem encoded_update (s t : Engine ι ρ) (mem : Nat) (m : MemTable) (hs : Encoded env s)
    (hheap : t.heap = Function.update s.heap mem m)
    (hm : ∀ sig, ∀ data ∈ m.rows sig.toU8, ∃ r, env.signalType r = sig ∧ env.serialize r = data) :
    Encoded env t := by
  intro mem' sig data hdata
  rw [hheap] at hdata
  by_cases hmem : mem' = mem
  · subst hmem
    rw [Function.update_self] at hdata
    exact hm sig data hdata
  · rw [Function.update_of_ne hmem] at hdata
    exact hs mem' sig data hdata

theorem encoded_write (m : MemTable) (r : ρ)
    (hm : ∀ sig, ∀ data ∈ m.rows sig.toU8, ∃ r, env.signalType r = sig ∧ env.serialize r = data)
    (sig : SignalType) (data : List UInt8) (hdata : data ∈ (env.write m r).rows sig.toU8) :
    ∃ r, env.signalType r = sig ∧ env.serialize r = data := by
  by_cases hsig : env.signalType r = sig
  · subst hsig
    rw [Env.write, rows_insert_same, Multiset.mem_cons] at hdata
    obtain rfl | hdata := hdata
    · exact ⟨r, rfl, rfl⟩
    · exact hm _ data hdata
  · have hne : (env.signalType r).toU8 ≠ sig.toU8 := fun he => hsig (SignalType.toU8_inj _ _ he)
    rw [Env.write, rows_insert_other _ _ _ _ _ hne] at hdata
    exact hm sig data hdata

theorem encoded_step [DecidableEq ι] (s t : Engine ι ρ) (a : Action ι ρ) (hs : Encoded env s)
    (h : Stepped env s a t) : Encoded env t := by
  have hnew : ∀ sig, ∀ data ∈ (MemTable.new env.memtableSizeBytes).rows (SignalType.toU8 sig),
      ∃ r, env.signalType r = sig ∧ env.serialize r = data :=
    fun _ data hdata => absurd hdata (Multiset.notMem_zero data)
  cases h with
  | fetchNew i done r todo hw hl => exact encoded_update env s _ _ _ hs rfl hnew
  | replace i key mem done todo hw => exact encoded_update env s _ _ _ hs rfl hnew
  | insert i r mem done todo hw =>
    exact encoded_update env s _ _ _ hs rfl (encoded_write env _ r (hs mem))
  | flush req stage sig stage' hw hn =>
    obtain ⟨tables, seqs, he⟩ := flushSignal_eq env s req sig
    rw [he]
    exact hs
  | _ => exact hs

theorem map_serialize_decoded (hfaithful : Faithful env) (s : Engine ι ρ) (hs : Encoded env s)
    (mem : Nat) (sig : SignalType) :
    (env.reader.decoded (s.heap mem) sig).map env.serialize = (s.heap mem).rows sig.toU8 := by
  rw [Env.decoded, Env.decodeRows, MemTable.rows, Multiset.map_coe, List.map_filterMap,
    ← List.filterMap_eq_map]
  congr 1
  refine List.filterMap_congr fun row hrow => ?_
  have hdata : row.2 ∈ (s.heap mem).rows sig.toU8 :=
    Multiset.mem_coe.mpr (List.mem_map_of_mem hrow)
  obtain ⟨r, rfl, hr⟩ := hs mem sig row.2 hdata
  obtain ⟨r', hread, hsame⟩ := reader_serialize env hfaithful r
  rw [← hr, hread, Option.map_some, hsame, hr]
  rfl

theorem map_stored_contents (hfaithful : Faithful env) (s : Engine ι ρ) (hs : Encoded env s)
    (sig : SignalType) (held : Multiset FlushRequest) :
    (s.contents env.reader sig held).map env.stored = s.storedRows sig held := by
  rw [Engine.contents, Multiset.map_bind, Engine.storedRows]
  refine bind_congr_of_mem held _ _ fun h _ => ?_
  rw [← map_serialize_decoded env hfaithful s hs, Multiset.map_map, Multiset.map_map]
  rfl

theorem map_stored_survivors (hfaithful : Faithful env) (rs : List ρ) (sig : SignalType) :
    (env.reader.survivors rs sig).map env.stored = (env.located rs sig).map env.stored := by
  rw [Env.survivors, Env.located, Multiset.map_coe, Multiset.map_coe, List.map_filterMap,
    List.map_map, ← List.filterMap_eq_map]
  congr 1
  refine List.filterMap_congr fun r _ => ?_
  obtain ⟨r', hread, hsame⟩ := reader_serialize env hfaithful r
  have hreread : env.reader.reread r = some r' := hread
  rw [hreread]
  exact congrArg (fun data => some (env.key r, data)) hsame

theorem survivors_le_located (hfaithful : Faithful env) (rs : List ρ) (sig : SignalType) :
    env.survivors rs sig ≤ env.located rs sig := by
  rw [Env.survivors, Env.located, Multiset.coe_le]
  generalize rs.filter (fun r => env.signalType r = sig) = rs'
  refine List.Sublist.subperm ?_
  induction rs' with
  | nil => exact List.Sublist.refl _
  | cons r rs' ih =>
    cases hread : env.reread r with
    | none =>
      rw [List.filterMap_cons_none (by rw [hread]; rfl), List.map_cons]
      exact ih.cons _
    | some r' =>
      rw [List.filterMap_cons_some (by rw [hread]; rfl), hfaithful r r' hread, List.map_cons]
      exact ih.cons_cons _

end Reader

/-- The ledgers balance with either decoder, and the memtables hold encodings. -/
structure Intact [Fintype ι] (env : Env ρ) (s : Engine ι ρ) : Prop where
  inv : Inv env s
  reader : Inv env.reader s
  encoded : Encoded env s

section Runs
variable [Fintype ι] (env : Env ρ) (s : Engine ι ρ)

theorem intact_open : Intact env (Engine.open env : Engine ι ρ) :=
  ⟨inv_open env, inv_open env.reader,
    fun _ _ data hdata => absurd hdata (Multiset.notMem_zero data)⟩

theorem intact_step [DecidableEq ι] (a : Action ι ρ) (t : Engine ι ρ) (hs : Intact env s)
    (hsafe : Safe env s a) (hdecodes : Decodes env s a) (h : step env s a = some t) :
    Intact env t := by
  have hsafe' : Safe env.reader s a := by
    cases a <;> exact hsafe
  exact ⟨inv_step env s a t hs.inv hsafe h,
    inv_step env.reader s a t hs.reader hsafe' ((step_reader env s a hdecodes).trans h),
    encoded_step env s t a hs.encoded (stepped_of_step env s a t h)⟩

/-- The written records are those registered and those whose encodings the memtables hold. -/
theorem rows_of_intact (hfaithful : Faithful env) (hs : Intact env s) (sig : SignalType) :
    ∃ held, held + s.registered sig = env.located s.written sig ∧
      s.storedRows sig (s.holders sig) = held.map env.stored := by
  have hbal : s.contents env sig (s.holders sig) + s.registered sig =
      env.survivors s.written sig := (hs.inv.balanced sig).balance
  have hle : s.registered sig ≤ env.located s.written sig := by
    refine le_trans ?_ (survivors_le_located env hfaithful s.written sig)
    rw [← hbal]
    exact Multiset.le_add_left _ _
  obtain ⟨held, hheld⟩ := Multiset.le_iff_exists_add.mp hle
  refine ⟨held, by rw [hheld, add_comm], ?_⟩
  have hbal' : s.contents env.reader sig (s.holders sig) + s.registered sig =
      env.reader.survivors s.written sig := (hs.reader.balanced sig).balance
  have hrows := congrArg (Multiset.map env.stored) hbal'
  rw [Multiset.map_add, map_stored_contents env hfaithful s hs.encoded,
    map_stored_survivors env hfaithful, hheld, Multiset.map_add, add_comm] at hrows
  exact add_left_cancel hrows

end Runs

end InfraLens.Storage
