import InfraLens.AccountingSteps

/-! One task calling `write_batch`, with the flush worker running beside it: the memtable
a record is written to stays the active one, so every step is safe. -/
namespace InfraLens.Storage
open Model LibRun LibLedger

variable {ρ : Type}

/-- The partition and memtable a record is being written to, up to the freeze. -/
def Pc.uses (env : Env ρ) : Pc ρ → Option (UInt64 × Nat)
  | .fetched r mem => some (env.key r, mem)
  | .appended r mem => some (env.key r, mem)
  | .inserted key mem => some (key, mem)
  | .full key mem => some (key, mem)
  | _ => none

def Closer.listed : Closer → Bool
  | .notCalled => false
  | .closing => false
  | .flushing _ => true
  | .sending _ _ _ => true
  | .returned => true

/-- `flush_all` lists the memtables while no call is being served. -/
def Calm (s : Engine Unit ρ) : Action Unit ρ → Prop
  | .listKeys => (s.writers ()).pc = .idle
  | _ => True

instance : (pc : Pc ρ) → Decidable (pc = .idle)
  | .idle => .isTrue rfl
  | .loop => .isFalse (by intro h; cases h)
  | .fetched _ _ => .isFalse (by intro h; cases h)
  | .appended _ _ => .isFalse (by intro h; cases h)
  | .inserted _ _ => .isFalse (by intro h; cases h)
  | .full _ _ => .isFalse (by intro h; cases h)
  | .frozen _ _ => .isFalse (by intro h; cases h)

instance (s : Engine Unit ρ) : (a : Action Unit ρ) → Decidable (Calm s a)
  | .listKeys => inferInstanceAs (Decidable ((s.writers ()).pc = .idle))
  | .begin _ _ | .fetch _ | .append _ | .insert _ | .test _ | .replace _ | .enqueue _
  | .finish _ | .recv | .flush | .flushError | .checkpoint | .close | .remove | .send
  | .ret => .isTrue trivial

/-- The writer works on the active memtable of its partition, and on none once
`flush_all` has listed them. -/
structure Solo (env : Env ρ) (s : Engine Unit ρ) : Prop where
  active : ∀ key mem, (s.writers ()).pc.uses env = some (key, mem) →
    s.memtables.lookup key = some mem
  closed : s.closer ≠ .notCalled → s.closed = true
  quiet : s.closer.listed = true → (s.writers ()).pc = .idle

section Steps
variable (env : Env ρ) (s t : Engine Unit ρ)

theorem solo_open : Solo env (Engine.open env) := by
  refine ⟨?_, ?_, ?_⟩
  · intro key mem h
    simp [Engine.open, Pc.uses] at h
  · intro h
    exact absurd rfl h
  · intro h
    simp [Engine.open, Closer.listed] at h

theorem solo_writer (hs : Solo env s) (hbusy : (s.writers ()).pc ≠ .idle)
    (hc : t.closer = s.closer) (hcl : t.closed = s.closed)
    (ha : ∀ key mem, (t.writers ()).pc.uses env = some (key, mem) →
      t.memtables.lookup key = some mem) : Solo env t := by
  refine ⟨ha, ?_, ?_⟩
  · rw [hc, hcl]
    exact hs.closed
  · intro hl
    rw [hc] at hl
    exact absurd (hs.quiet hl) hbusy

theorem solo_keeps (hs : Solo env s) (hbusy : (s.writers ()).pc ≠ .idle)
    (hc : t.closer = s.closer) (hcl : t.closed = s.closed) (hm : t.memtables = s.memtables)
    (hu : (t.writers ()).pc.uses env = (s.writers ()).pc.uses env) : Solo env t := by
  refine solo_writer env s t hs hbusy hc hcl ?_
  intro key mem h
  rw [hm]
  exact hs.active key mem (hu ▸ h)

theorem solo_leaves (hs : Solo env s) (hbusy : (s.writers ()).pc ≠ .idle)
    (hc : t.closer = s.closer) (hcl : t.closed = s.closed)
    (hu : (t.writers ()).pc.uses env = none) : Solo env t := by
  refine solo_writer env s t hs hbusy hc hcl ?_
  intro key mem h
  rw [hu] at h
  cases h

theorem solo_other (hs : Solo env s) (hw : t.writers = s.writers)
    (hm : t.memtables = s.memtables) (hc : t.closer ≠ .notCalled → t.closed = true)
    (hl : t.closer.listed = true → (s.writers ()).pc = .idle) : Solo env t := by
  refine ⟨?_, hc, ?_⟩
  · rw [hw, hm]
    exact hs.active
  · rwa [hw]

theorem solo_worker (hs : Solo env s) (hw : t.writers = s.writers)
    (hm : t.memtables = s.memtables) (hc : t.closer = s.closer) (hcl : t.closed = s.closed) :
    Solo env t := by
  refine solo_other env s t hs hw hm ?_ ?_
  · rw [hc, hcl]
    exact hs.closed
  · rw [hc]
    exact hs.quiet

theorem solo_removed (hs : Solo env s) (hw : t.writers = s.writers)
    (hl : s.closer.listed = true) (hcl : t.closed = s.closed) : Solo env t := by
  have hidle := hs.quiet hl
  have hne : s.closer ≠ .notCalled := by
    intro he
    rw [he] at hl
    cases hl
  refine ⟨?_, ?_, ?_⟩
  · intro key mem h
    rw [hw, hidle] at h
    cases h
  · intro _
    rw [hcl]
    exact hs.closed hne
  · intro _
    rwa [hw]

theorem solo_step (a : Action Unit ρ) (hs : Solo env s) (hcalm : Calm s a)
    (h : Stepped env s a t) : Solo env t := by
  cases h with
  | refused i batch hpc hc => exact hs
  | begin i batch hpc hc =>
    have hnot : s.closer = .notCalled := by
      by_contra hne
      rw [hs.closed hne] at hc
      cases hc
    refine ⟨?_, hs.closed, ?_⟩
    · intro key mem h
      simp [Engine.setWriter, Pc.uses] at h
    · intro hl
      rw [Engine.setWriter, hnot] at hl
      cases hl
  | fetchOld i done r todo mem hw hl =>
    refine solo_writer env s _ hs (by rw [hw]; simp) rfl rfl ?_
    intro key mem' h
    simp only [Engine.setWriter, Function.update_self, Pc.uses, Option.some.injEq,
      Prod.mk.injEq] at h
    obtain ⟨hk, hm⟩ := h
    rw [← hk, ← hm]
    exact hl
  | fetchNew i done r todo hw hl =>
    refine solo_writer env s _ hs (by rw [hw]; simp) rfl rfl ?_
    intro key mem' h
    simp only [Engine.setWriter, Engine.alloc, Function.update_self, Pc.uses,
      Option.some.injEq, Prod.mk.injEq] at h
    obtain ⟨hk, hm⟩ := h
    rw [← hk, ← hm]
    exact AList.lookup_insert _
  | append i r mem done todo hw =>
    refine solo_keeps env s _ hs (by rw [hw]; simp) rfl rfl rfl ?_
    rw [hw]
    simp [Engine.setWriter, Pc.uses]
  | insert i r mem done todo hw =>
    refine solo_keeps env s _ hs (by rw [hw]; simp) rfl rfl rfl ?_
    rw [hw]
    simp [Engine.setWriter, Pc.uses]
  | testFull i key mem done todo hw hf =>
    refine solo_keeps env s _ hs (by rw [hw]; simp) rfl rfl rfl ?_
    rw [hw]
    simp [Engine.setWriter, Pc.uses]
  | testRoom i key mem done todo hw hf =>
    refine solo_leaves env s _ hs (by rw [hw]; simp) rfl rfl ?_
    simp [Engine.setWriter, Pc.uses]
  | replace i key mem done todo hw =>
    refine solo_leaves env s _ hs (by rw [hw]; simp) rfl rfl ?_
    simp [Engine.setWriter, Pc.uses]
  | enqueue i key mem done todo hw hq =>
    refine solo_leaves env s _ hs (by rw [hw]; simp) rfl rfl ?_
    simp [Engine.setWriter, Pc.uses]
  | dropped i key mem done todo hw hq =>
    refine solo_leaves env s _ hs (by rw [hw]; simp) rfl rfl ?_
    simp [Engine.setWriter, Pc.uses]
  | finish i done hw =>
    refine solo_leaves env s _ hs (by rw [hw]; simp) rfl rfl ?_
    simp [Engine.setWriter, Pc.uses]
  | recv req queue hw hq => exact solo_worker env s _ hs rfl rfl rfl rfl
  | flush req stage sig stage' hw hn =>
    obtain ⟨tables, seqs, he⟩ := flushSignal_eq env s req sig
    rw [he]
    exact solo_worker env s _ hs rfl rfl rfl rfl
  | flushError req stage sig stage' hw hn => exact solo_worker env s _ hs rfl rfl rfl rfl
  | checkpoint req hw hwal => exact solo_worker env s _ hs rfl rfl rfl rfl
  | noWal req hw hwal => exact solo_worker env s _ hs rfl rfl rfl rfl
  | close hc => exact solo_other env s _ hs rfl rfl (fun _ => rfl) (by intro hl; cases hl)
  | listKeys hc =>
    refine solo_other env s _ hs rfl rfl (fun _ => hs.closed ?_) (fun _ => hcalm)
    rw [hc]
    simp
  | absent key keys hc hl => exact solo_removed env s _ hs rfl (by rw [hc]; rfl) rfl
  | letGo key keys mem hc hl he => exact solo_removed env s _ hs rfl (by rw [hc]; rfl) rfl
  | remove key keys mem hc hl he => exact solo_removed env s _ hs rfl (by rw [hc]; rfl) rfl
  | send mem key keys hc hq => exact solo_removed env s _ hs rfl (by rw [hc]; rfl) rfl
  | ret hc => exact solo_removed env s _ hs rfl (by rw [hc]; rfl) rfl

theorem safe_of_solo (a : Action Unit ρ) (hinv : Inv env s) (hs : Solo env s) :
    Safe env s a := by
  cases a with
  | replace i =>
    intro f hf
    apply hs.active
    cases hpc : (s.writers i).pc with
    | full key mem =>
      rw [hpc] at hf
      cases hf
      rfl
    | _ =>
      rw [hpc] at hf
      cases hf
  | flush =>
    intro w hw n hn i x hx himm hsig
    obtain ⟨req, stage⟩ := w
    obtain ⟨sig, stage'⟩ := n
    obtain ⟨r, mem⟩ := x
    have hact : s.memtables.lookup (env.key r) = some mem := by
      apply hs.active
      cases hpc : (s.writers i).pc with
      | fetched r' mem' =>
        rw [hpc] at hx
        cases hx
        rfl
      | appended r' mem' =>
        rw [hpc] at hx
        cases hx
        rfl
      | _ =>
        rw [hpc] at hx
        cases hx
    have hpend := (next_pending stage stage' sig hn).1
    have hnd := (hinv.balanced sig).nodup
    rw [Ledger.ids, Engine.view, Engine.holders, Engine.active, Engine.underFlush, hw,
      Option.toList_some, undrained_cons_pending _ _ _ _ hpend,
      activeOf_erase _ _ _ hact] at hnd
    simp only at himm
    simp [himm] at hnd
  | remove =>
    intro key hkey mem hl he i x hx
    have hlisted : s.closer.listed = true := by
      cases hc : s.closer with
      | flushing keys => rfl
      | _ =>
        rw [hc] at hkey
        cases hkey
    rw [hs.quiet hlisted] at hx
    cases hx
  | _ => trivial

theorem inv_solo_step (a : Action Unit ρ) (hs : Inv env s ∧ Solo env s) (hcalm : Calm s a)
    (h : step env s a = some t) : Inv env t ∧ Solo env t :=
  ⟨inv_step env s a t hs.1 (safe_of_solo env s a hs.1 hs.2) h,
    solo_step env s t a hs.2 hcalm (stepped_of_step env s a t h)⟩

end Steps

end InfraLens.Storage
