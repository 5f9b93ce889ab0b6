import InfraLens.AccountingSteps

/-! The calls of `write_batch` and the records they insert: what is acknowledged was
written, and what is written came with a batch. -/
namespace InfraLens.Storage
open Model LibRun

variable {ι ρ : Type}

def Batches (P : ρ → Prop) : Action ι ρ → Prop
  | .begin _ batch => ∀ r ∈ batch, P r
  | _ => True

instance (P : ρ → Prop) [DecidablePred P] : (a : Action ι ρ) → Decidable (Batches P a)
  | .begin _ batch => inferInstanceAs (Decidable (∀ r ∈ batch, P r))
  | .fetch _ | .append _ | .insert _ | .test _ | .replace _ | .enqueue _ | .finish _
  | .recv | .flush | .flushError | .checkpoint | .close | .listKeys | .remove | .send
  | .ret => .isTrue trivial

/-- Every record in the writers' hands or written has the property. -/
structure Carries (P : ρ → Prop) (s : Engine ι ρ) : Prop where
  written : ∀ r ∈ s.written, P r
  todo : ∀ i, ∀ r ∈ (s.writers i).todo, P r
  target : ∀ i r mem, (s.writers i).pc.target = some (r, mem) → P r

/-- The records written are those of the calls that returned and those the calls being
served have inserted. -/
structure Tallied [Fintype ι] (s : Engine ι ρ) : Prop where
  tally : (s.acked : Multiset ρ) + ∑ i, ((s.writers i).done : Multiset ρ) = s.written
  idle : ∀ i, (s.writers i).pc = .idle → (s.writers i).done = []

section Carries
variable (P : ρ → Prop) (env : Env ρ) (s t : Engine ι ρ)

theorem carries_open : Carries P (Engine.open env : Engine ι ρ) := by
  refine ⟨?_, ?_, ?_⟩ <;> simp [Engine.open, Pc.target]

theorem carries_frame (hs : Carries P s) (hw : t.writers = s.writers)
    (hwr : t.written = s.written) : Carries P t :=
  ⟨hwr ▸ hs.written, hw ▸ hs.todo, hw ▸ hs.target⟩

variable [DecidableEq ι]

theorem carries_update (hs : Carries P s) (i : ι) (w : Writer ρ)
    (hw : t.writers = Function.update s.writers i w) (hwritten : ∀ r ∈ t.written, P r)
    (htodo : ∀ r ∈ w.todo, P r) (htarget : ∀ r mem, w.pc.target = some (r, mem) → P r) :
    Carries P t := by
  refine ⟨hwritten, ?_, ?_⟩
  · rw [hw]
    exact (Function.forall_update_iff s.writers fun _ w => ∀ r ∈ w.todo, P r).mpr
      ⟨htodo, fun j _ => hs.todo j⟩
  · rw [hw]
    exact (Function.forall_update_iff s.writers
      fun _ w => ∀ r mem, w.pc.target = some (r, mem) → P r).mpr
      ⟨htarget, fun j _ => hs.target j⟩

theorem carries_goOn (hs : Carries P s) (i : ι) (pc : Pc ρ) (done : List ρ)
    (hw : t.writers = Function.update s.writers i ⟨pc, done, (s.writers i).todo⟩)
    (hwritten : ∀ r ∈ t.written, P r) (htarget : pc.target = none) : Carries P t := by
  refine carries_update P s t hs i _ hw hwritten (hs.todo i) ?_
  intro r mem h
  rw [htarget] at h
  cases h

theorem carries_fetch (hs : Carries P s) (i : ι) (r : ρ) (mem : Nat) (done todo : List ρ)
    (hold : (s.writers i).todo = r :: todo)
    (hw : t.writers = Function.update s.writers i ⟨.fetched r mem, done, todo⟩)
    (hwritten : t.written = s.written) : Carries P t := by
  have htodo := hs.todo i
  rw [hold] at htodo
  refine carries_update P s t hs i _ hw (hwritten ▸ hs.written)
    (fun r' hr => htodo r' (List.mem_cons_of_mem r hr)) ?_
  intro r' mem' he
  cases he
  exact htodo r (by simp)

theorem carries_step (a : Action ι ρ) (hs : Carries P s) (hb : Batches P a)
    (h : Stepped env s a t) : Carries P t := by
  cases h with
  | refused i batch hpc hc => exact hs
  | begin i batch hpc hc =>
    exact carries_update P s _ hs i _ rfl hs.written hb (by intro _ _ h; cases h)
  | fetchOld i done r todo mem hw hl =>
    exact carries_fetch P s _ hs i r mem done todo (by rw [hw]) rfl rfl
  | fetchNew i done r todo hw hl =>
    exact carries_fetch P s _ hs i r s.nextId done todo (by rw [hw]) rfl rfl
  | append i r mem done todo hw =>
    have htodo := hs.todo i
    rw [hw] at htodo
    refine carries_update P s _ hs i _ rfl hs.written htodo ?_
    intro r' mem' he
    cases he
    exact hs.target i r mem (by rw [hw]; rfl)
  | insert i r mem done todo hw =>
    refine carries_goOn P s _ hs i (.inserted (env.key r) mem) (done ++ [r])
      (by rw [hw]; rfl) ?_ rfl
    intro r' hr'
    cases List.mem_append.mp hr' with
    | inl h => exact hs.written r' h
    | inr h =>
      rw [List.mem_singleton.mp h]
      exact hs.target i r mem (by rw [hw]; rfl)
  | testFull i key mem done todo hw hf =>
    exact carries_goOn P s _ hs i (.full key mem) done (by rw [hw]; rfl) hs.written rfl
  | testRoom i key mem done todo hw hf =>
    exact carries_goOn P s _ hs i .loop done (by rw [hw]; rfl) hs.written rfl
  | replace i key mem done todo hw =>
    exact carries_goOn P s _ hs i (.frozen key mem) done (by rw [hw]; rfl) hs.written rfl
  | enqueue i key mem done todo hw hq =>
    exact carries_goOn P s _ hs i .loop done (by rw [hw]; rfl) hs.written rfl
  | dropped i key mem done todo hw hq =>
    exact carries_goOn P s _ hs i .loop done (by rw [hw]; rfl) hs.written rfl
  | finish i done hw =>
    exact carries_goOn P s _ hs i .idle [] (by rw [hw]; rfl) hs.written rfl
  | flush req stage sig stage' hw hn =>
    obtain ⟨tables, seqs, he⟩ := flushSignal_eq env s req sig
    rw [he]
    exact carries_frame P s _ hs rfl rfl
  | _ => exact carries_frame P s _ hs rfl rfl

end Carries

section Tallied
variable [Fintype ι] (env : Env ρ) (s t : Engine ι ρ)

theorem tallied_open : Tallied (Engine.open env : Engine ι ρ) := by
  refine ⟨?_, ?_⟩ <;> simp [Engine.open]

theorem tallied_frame (hs : Tallied s) (hw : t.writers = s.writers)
    (hwr : t.written = s.written) (ha : t.acked = s.acked) : Tallied t :=
  ⟨hw ▸ hwr ▸ ha ▸ hs.tally, hw ▸ hs.idle⟩

theorem acked_eq_written (hs : Tallied s) (hidle : ∀ i, (s.writers i).pc = .idle) :
    (s.acked : Multiset ρ) = s.written := by
  have hzero : ∑ i, ((s.writers i).done : Multiset ρ) = 0 := by
    apply Finset.sum_eq_zero
    intro i _
    rw [hs.idle i (hidle i)]
    rfl
  rw [← hs.tally, hzero, add_zero]

theorem acked_le_written (hs : Tallied s) : (s.acked : Multiset ρ) ≤ s.written := by
  rw [← hs.tally]
  exact Multiset.le_add_right _ _

variable [DecidableEq ι]

theorem tallied_update (hs : Tallied s) (i : ι) (w : Writer ρ)
    (hw : t.writers = Function.update s.writers i w)
    (hsum : (t.acked : Multiset ρ) + w.done + s.written =
      s.acked + (s.writers i).done + t.written)
    (hidle : w.pc = .idle → w.done = []) : Tallied t := by
  refine ⟨?_, ?_⟩
  · have hu := sum_update s.writers i w (fun u => (u.done : Multiset ρ))
    rw [hw]
    have hall : ((t.acked : Multiset ρ) +
        ∑ j, ((Function.update s.writers i w j).done : Multiset ρ)) +
        ((s.writers i).done + s.written) = t.written + ((s.writers i).done + s.written) := by
      calc ((t.acked : Multiset ρ) +
            ∑ j, ((Function.update s.writers i w j).done : Multiset ρ)) +
            ((s.writers i).done + s.written)
          = t.acked + s.written + ((∑ j, ((Function.update s.writers i w j).done : Multiset ρ)) +
              (s.writers i).done) := by abel
        _ = (t.acked + w.done + s.written) + ∑ j, ((s.writers j).done : Multiset ρ) := by
            rw [hu]; abel
        _ = t.written +
            ((s.writers i).done + (s.acked + ∑ j, ((s.writers j).done : Multiset ρ))) := by
            rw [hsum]; abel
        _ = t.written + ((s.writers i).done + s.written) := by rw [hs.tally]
    exact add_right_cancel hall
  · intro j hj
    rw [hw] at hj ⊢
    by_cases hji : j = i
    · subst hji
      rw [Function.update_self] at hj ⊢
      exact hidle hj
    · rw [Function.update_of_ne hji] at hj ⊢
      exact hs.idle j hj

theorem tallied_goOn (hs : Tallied s) (i : ι) (pc : Pc ρ) (todo : List ρ)
    (hw : t.writers = Function.update s.writers i ⟨pc, (s.writers i).done, todo⟩)
    (hwr : t.written = s.written) (ha : t.acked = s.acked) (hpc : pc ≠ .idle) : Tallied t :=
  tallied_update s t hs i _ hw (by rw [hwr, ha]) (fun h => absurd h hpc)

theorem tallied_step (a : Action ι ρ) (hs : Tallied s) (h : Stepped env s a t) : Tallied t := by
  cases h with
  | refused i batch hpc hc => exact hs
  | begin i batch hpc hc =>
    exact tallied_goOn s _ hs i .loop batch (by rw [hs.idle i hpc]; rfl) rfl rfl (by simp)
  | fetchOld i done r todo mem hw hl =>
    exact tallied_goOn s _ hs i (.fetched r mem) todo (by rw [hw]; rfl) rfl rfl (by simp)
  | fetchNew i done r todo hw hl =>
    exact tallied_goOn s _ hs i (.fetched r s.nextId) todo (by rw [hw]; rfl) rfl rfl (by simp)
  | append i r mem done todo hw =>
    exact tallied_goOn s _ hs i (.appended r mem) todo (by rw [hw]; rfl) rfl rfl (by simp)
  | insert i r mem done todo hw =>
    refine tallied_update s _ hs i ⟨.inserted (env.key r) mem, done ++ [r], todo⟩ rfl ?_
      (by intro h; cases h)
    rw [hw]
    simp only [Engine.setWriter, ← Multiset.coe_add]
    abel
  | testFull i key mem done todo hw hf =>
    exact tallied_goOn s _ hs i (.full key mem) todo (by rw [hw]; rfl) rfl rfl (by simp)
  | testRoom i key mem done todo hw hf =>
    exact tallied_goOn s _ hs i .loop todo (by rw [hw]; rfl) rfl rfl (by simp)
  | replace i key mem done todo hw =>
    exact tallied_goOn s _ hs i (.frozen key mem) todo (by rw [hw]; rfl) rfl rfl (by simp)
  | enqueue i key mem done todo hw hq =>
    exact tallied_goOn s _ hs i .loop todo (by rw [hw]; rfl) rfl rfl (by simp)
  | dropped i key mem done todo hw hq =>
    exact tallied_goOn s _ hs i .loop todo (by rw [hw]; rfl) rfl rfl (by simp)
  | finish i done hw =>
    refine tallied_update s _ hs i ⟨.idle, [], []⟩ rfl ?_ (fun _ => rfl)
    rw [hw]
    simp [Engine.setWriter, ← Multiset.coe_add]
  | flush req stage sig stage' hw hn =>
    obtain ⟨tables, seqs, he⟩ := flushSignal_eq env s req sig
    rw [he]
    exact tallied_frame s _ hs rfl rfl rfl
  | _ => exact tallied_frame s _ hs rfl rfl rfl

end Tallied

end InfraLens.Storage
