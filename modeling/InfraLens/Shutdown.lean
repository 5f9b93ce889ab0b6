import InfraLens.Calls
import InfraLens.NoLoss

/-! `close` with one writer: when it returns no memtable is active any more, so what was
written is in the flush queue, under flush or in an SSTable. -/
namespace InfraLens.Storage
open Model LibRun LibLedger

variable {ρ : Type}

/-- The listed memtables `flush_all` has still to remove; nothing before it lists them. -/
def Closer.remaining : Closer → Option (List UInt64)
  | .notCalled => none
  | .closing => none
  | .flushing keys => some keys
  | .sending _ _ keys => some keys
  | .returned => some []

/-- Once `flush_all` has listed the memtables, all that are active are still on its list. -/
def Swept (s : Engine Unit ρ) : Prop :=
  ∀ keys ∈ s.closer.remaining, ∀ key, s.memtables.lookup key ≠ none → key ∈ keys

section Steps
variable (env : Env ρ) (s t : Engine Unit ρ)

theorem swept_keep (hs : Swept s) (hc : t.closer = s.closer) (hm : t.memtables = s.memtables) :
    Swept t := by
  rw [Swept, hc, hm]
  exact hs

theorem swept_writer (hsolo : Solo env s) (hbusy : (s.writers ()).pc ≠ .idle)
    (hc : t.closer = s.closer) : Swept t := by
  intro keys hk
  rw [hc] at hk
  cases hcl : s.closer with
  | notCalled =>
    rw [hcl] at hk
    cases hk
  | closing =>
    rw [hcl] at hk
    cases hk
  | flushing ks => exact absurd (hsolo.quiet (by rw [hcl]; rfl)) hbusy
  | sending mem key ks => exact absurd (hsolo.quiet (by rw [hcl]; rfl)) hbusy
  | returned => exact absurd (hsolo.quiet (by rw [hcl]; rfl)) hbusy

theorem swept_removed (hs : Swept s) (key : UInt64) (keys : List UInt64)
    (hc : s.closer = .flushing (key :: keys)) (hc' : t.closer.remaining = some keys)
    (hm : t.memtables = s.memtables.erase key) : Swept t := by
  intro ks hks k hk
  rw [hc'] at hks
  cases hks
  rw [hm] at hk
  by_cases he : k = key
  · subst he
    exact absurd (AList.lookup_erase k s.memtables) hk
  · rw [AList.lookup_erase_ne he] at hk
    have hmem := hs (key :: keys) (by rw [hc]; rfl) k hk
    exact (List.mem_cons.mp hmem).resolve_left he

theorem swept_step (a : Action Unit ρ) (hsolo : Solo env s) (hs : Swept s)
    (h : Stepped env s a t) : Swept t := by
  cases h with
  | refused i batch hpc hc => exact hs
  | begin i batch hpc hc => exact swept_keep s _ hs rfl rfl
  | fetchOld i done r todo mem hw hl => exact swept_keep s _ hs rfl rfl
  | fetchNew i done r todo hw hl => exact swept_writer env s _ hsolo (by rw [hw]; simp) rfl
  | append i r mem done todo hw => exact swept_keep s _ hs rfl rfl
  | insert i r mem done todo hw => exact swept_keep s _ hs rfl rfl
  | testFull i key mem done todo hw hf => exact swept_keep s _ hs rfl rfl
  | testRoom i key mem done todo hw hf => exact swept_keep s _ hs rfl rfl
  | replace i key mem done todo hw => exact swept_writer env s _ hsolo (by rw [hw]; simp) rfl
  | enqueue i key mem done todo hw hq => exact swept_keep s _ hs rfl rfl
  | dropped i key mem done todo hw hq => exact swept_keep s _ hs rfl rfl
  | finish i done hw => exact swept_keep s _ hs rfl rfl
  | recv req queue hw hq => exact swept_keep s _ hs rfl rfl
  | flush req stage sig stage' hw hn =>
    obtain ⟨tables, seqs, he⟩ := flushSignal_eq env s req sig
    rw [he]
    exact swept_keep s _ hs rfl rfl
  | flushError req stage sig stage' hw hn => exact swept_keep s _ hs rfl rfl
  | checkpoint req hw hwal => exact swept_keep s _ hs rfl rfl
  | noWal req hw hwal => exact swept_keep s _ hs rfl rfl
  | close hc => exact by intro keys hk; cases hk
  | listKeys hc =>
    intro keys hk key hl
    cases hk
    exact AList.mem_keys.mpr (AList.lookup_isSome.mp (Option.isSome_iff_ne_none.mpr hl))
  | absent key keys hc hl =>
    intro ks hks k hk
    cases hks
    have hmem := hs (key :: keys) (by rw [hc]; rfl) k hk
    refine (List.mem_cons.mp hmem).resolve_left ?_
    intro he
    exact hk (he ▸ hl)
  | letGo key keys mem hc hl he => exact swept_removed s _ hs key keys hc rfl rfl
  | remove key keys mem hc hl he => exact swept_removed s _ hs key keys hc rfl rfl
  | send mem key keys hc hq =>
    intro ks hks k hk
    cases hks
    exact hs keys (by rw [hc]; rfl) k hk
  | ret hc =>
    intro ks hks k hk
    cases hks
    exact hs [] (by rw [hc]; rfl) k hk

theorem active_of_returned (hs : Swept s) (hr : s.closer = .returned) : s.active = 0 := by
  have hempty : s.memtables.entries = [] := by
    apply List.eq_nil_iff_forall_not_mem.mpr
    intro e he
    have hl : s.memtables.lookup e.1 = some e.2 := AList.mem_lookup_iff.mpr he
    have hmem := hs [] (by rw [hr]; rfl) e.1 (by simp [hl])
    cases hmem
  rw [Engine.active, activeOf, hempty]
  rfl

/-- What is kept in every state of a run of one writer and `close`. -/
structure Served (s : Engine Unit ρ) : Prop where
  inv : Inv env s
  solo : Solo env s
  swept : Swept s
  tallied : Tallied s
  orphans : s.orphans = []

/-- No I/O fails, every freeze finds a free slot, and `flush_all` lists the memtables
while no call is being served. -/
def Orderly (s : Engine Unit ρ) (a : Action Unit ρ) : Prop :=
  a.succeeds = true ∧ HasRoom s a ∧ Calm s a

instance (a : Action Unit ρ) : Decidable (Orderly s a) :=
  inferInstanceAs (Decidable (a.succeeds = true ∧ HasRoom s a ∧ Calm s a))

theorem served_open : Served env (Engine.open env) :=
  ⟨inv_open env, solo_open env, (by intro _ hk; cases hk), tallied_open env, rfl⟩

theorem served_step (a : Action Unit ρ) (hs : Served env s) (hok : Orderly s a)
    (h : step env s a = some t) : Served env t := by
  have hst := stepped_of_step env s a t h
  obtain ⟨hinv, hsolo⟩ := inv_solo_step env s t a ⟨hs.inv, hs.solo⟩ hok.2.2 h
  exact ⟨hinv, hsolo, swept_step env s t a hs.solo hs.swept hst,
    tallied_step env s t a hs.tallied hst,
    orphans_step env s a t hs.orphans hok.1 hok.2.1 hst⟩

theorem holders_returned (hs : Served env s) (hr : s.closer = .returned) (sig : SignalType) :
    s.holders sig = s.queue + s.underFlush sig := by
  have hidle : (s.writers ()).pc = .idle := hs.solo.quiet (by rw [hr]; rfl)
  have hhand : s.inHand = 0 := by
    simp [Engine.inHand, hidle, hr, Pc.hand, Closer.hand]
  rw [Engine.holders, active_of_returned s hs.swept hr, orphaned_of_nil s hs.orphans, hhand,
    zero_add, zero_add, add_zero]

theorem acked_of_returned (hs : Served env s) (hr : s.closer = .returned) :
    (s.acked : Multiset ρ) = s.written :=
  acked_eq_written s hs.tallied fun _ => hs.solo.quiet (by rw [hr]; rfl)

/-- When `close` returns, the calls that were served are in the queue, under flush or
in SSTables. -/
theorem served_returned (hs : Served env s) (hr : s.closer = .returned) (sig : SignalType) :
    s.contents env sig (s.queue + s.underFlush sig) + s.registered sig =
      env.survivors s.written sig ∧ (s.acked : Multiset ρ) = s.written := by
  refine ⟨?_, acked_of_returned env s hs hr⟩
  rw [← holders_returned env s hs hr]
  exact (hs.inv.balanced sig).balance

end Steps

end InfraLens.Storage
