import InfraLens.Buckets
import InfraLens.Calls
import Mathlib.Algebra.Order.BigOperators.Group.Finset

/-! How large a memtable can get. The size test of `maybe_freeze` comes after the insertion, so a
memtable can grow past `memtable_size_bytes`; each task calling `write_batch` can take it past the
limit by one record, and by no more, under every interleaving. -/
namespace InfraLens.Storage
open Model LibRun

variable {ι ρ : Type}

/-- 1 when the writer has still to insert a record into the memtable. -/
def Pc.aims (mem : Nat) : Pc ρ → Nat
  | .fetched _ m => if m = mem then 1 else 0
  | .appended _ m => if m = mem then 1 else 0
  | _ => 0

/-- 1 when the writer has inserted a record into the memtable and not yet found room in it or
replaced it. -/
def Pc.past (mem : Nat) : Pc ρ → Nat
  | .inserted _ m => if m = mem then 1 else 0
  | .full _ m => if m = mem then 1 else 0
  | _ => 0

def Engine.aims [Fintype ι] (s : Engine ι ρ) (mem : Nat) : Nat := ∑ i, (s.writers i).pc.aims mem

def Engine.past [Fintype ι] (s : Engine ι ρ) (mem : Nat) : Nat := ∑ i, (s.writers i).pc.past mem

/-- The record's row takes at most `cap` bytes of a memtable's accounted size. -/
def Env.Fits (env : Env ρ) (cap : Nat) (r : ρ) : Prop :=
  rowKeySize + (env.serialize r).length ≤ cap

instance (env : Env ρ) (cap : Nat) : DecidablePred (env.Fits cap) :=
  fun r => inferInstanceAs (Decidable (rowKeySize + (env.serialize r).length ≤ cap))

/-- The bound on an active memtable grows with the writers that are past their insertion; one that
is out of the map has room for the writers that still hold it. -/
structure Bounded [Fintype ι] (env : Env ρ) (cap : Nat) (s : Engine ι ρ) : Prop where
  limit : ∀ mem, (s.heap mem).maxSize = env.memtableSizeBytes
  active : ∀ p mem, s.memtables.lookup p = some mem →
    (s.heap mem).sizeBytes ≤ env.memtableSizeBytes - 1 + cap * s.past mem
  other : ∀ mem < s.nextId, (∀ p, s.memtables.lookup p ≠ some mem) →
    (s.heap mem).sizeBytes + cap * s.aims mem ≤
      env.memtableSizeBytes - 1 + cap * Fintype.card ι

section Counts
variable [Fintype ι] (s t : Engine ι ρ)

theorem Pc.aims_add_past_le (mem : Nat) (pc : Pc ρ) : pc.aims mem + pc.past mem ≤ 1 := by
  cases pc <;> simp only [Pc.aims, Pc.past] <;> (try split) <;> omega

/-- A writer that has still to insert into a memtable is not past that insertion. -/
theorem aims_add_past_le (mem : Nat) : s.aims mem + s.past mem ≤ Fintype.card ι := by
  rw [Engine.aims, Engine.past, ← Finset.sum_add_distrib]
  calc ∑ i, ((s.writers i).pc.aims mem + (s.writers i).pc.past mem)
      ≤ ∑ _i : ι, 1 := Finset.sum_le_sum fun i _ => Pc.aims_add_past_le mem _
    _ = Fintype.card ι := by simp

variable [DecidableEq ι]

theorem aims_update (i : ι) (w : Writer ρ) (hw : t.writers = Function.update s.writers i w)
    (mem : Nat) : t.aims mem + (s.writers i).pc.aims mem = s.aims mem + w.pc.aims mem := by
  rw [Engine.aims, hw]
  exact sum_update s.writers i w fun v => v.pc.aims mem

theorem past_update (i : ι) (w : Writer ρ) (hw : t.writers = Function.update s.writers i w)
    (mem : Nat) : t.past mem + (s.writers i).pc.past mem = s.past mem + w.pc.past mem := by
  rw [Engine.past, hw]
  exact sum_update s.writers i w fun v => v.pc.past mem

end Counts

section Steps
variable [Fintype ι] (env : Env ρ) (cap : Nat) (s t : Engine ι ρ)

theorem bounded_open : Bounded env cap (Engine.open env : Engine ι ρ) := by
  refine ⟨fun _ => rfl, ?_, ?_⟩
  · intro p mem h
    simp [Engine.open] at h
  · intro mem h
    exact absurd h (Nat.not_lt_zero mem)

theorem bound_unmapped (mem : Nat)
    (h : (s.heap mem).sizeBytes ≤ env.memtableSizeBytes - 1 + cap * s.past mem) :
    (s.heap mem).sizeBytes + cap * s.aims mem ≤
      env.memtableSizeBytes - 1 + cap * Fintype.card ι := by
  have hcount : cap * (s.aims mem + s.past mem) ≤ cap * Fintype.card ι :=
    Nat.mul_le_mul_left cap (aims_add_past_le s mem)
  rw [Nat.mul_add] at hcount
  omega

theorem bounded_keep (hs : Bounded env cap s) (hheap : t.heap = s.heap)
    (hnext : t.nextId = s.nextId) (haims : ∀ mem, (∀ p, t.memtables.lookup p ≠ some mem) →
      t.aims mem ≤ s.aims mem)
    (hpast : ∀ p mem, t.memtables.lookup p = some mem →
      s.past mem ≤ t.past mem ∨ (s.heap mem).isFull = false)
    (hmap : ∀ p mem, t.memtables.lookup p = some mem → s.memtables.lookup p = some mem) :
    Bounded env cap t := by
  refine ⟨hheap ▸ hs.limit, ?_, ?_⟩
  · intro p mem h
    rw [hheap]
    obtain hle | hroom := hpast p mem h
    · have hold := hs.active p mem (hmap p mem h)
      have hmul := Nat.mul_le_mul_left cap hle
      omega
    · have hlimit := hs.limit mem
      simp only [MemTable.isFull, hlimit, decide_eq_false_iff_not] at hroom
      omega
  · intro mem hlt hout
    rw [hheap]
    have hmul := Nat.mul_le_mul_left cap (haims mem hout)
    by_cases hin : ∃ p, s.memtables.lookup p = some mem
    · obtain ⟨p, hp⟩ := hin
      have hold := bound_unmapped env cap s mem (hs.active p mem hp)
      omega
    · have hold := hs.other mem (hnext ▸ hlt) (not_exists.mp hin)
      omega

theorem bounded_alloc (hs : Bounded env cap s) (key : UInt64)
    (hheap : t.heap = Function.update s.heap s.nextId (MemTable.new env.memtableSizeBytes))
    (hnext : t.nextId = s.nextId + 1)
    (hmap : t.memtables = s.memtables.insert key s.nextId)
    (haims : ∀ mem < s.nextId, t.aims mem = s.aims mem)
    (hpast : ∀ p mem, mem < s.nextId → p ≠ key → s.memtables.lookup p = some mem →
      t.past mem = s.past mem)
    (hheld : ∀ p mem, s.memtables.lookup p = some mem → mem < s.nextId) : Bounded env cap t := by
  have hsame (mem : Nat) (hlt : mem < s.nextId) : t.heap mem = s.heap mem := by
    rw [hheap, Function.update_of_ne (Nat.ne_of_lt hlt)]
  refine ⟨?_, ?_, ?_⟩
  · intro mem
    rw [hheap]
    by_cases hnew : mem = s.nextId
    · rw [hnew, Function.update_self]
      rfl
    · rw [Function.update_of_ne hnew]
      exact hs.limit mem
  · intro p mem h
    rw [hmap] at h
    by_cases hp : p = key
    · rw [hp, AList.lookup_insert] at h
      cases h
      rw [hheap, Function.update_self]
      exact Nat.zero_le _
    · rw [AList.lookup_insert_ne hp] at h
      have hlt := hheld p mem h
      rw [hsame mem hlt, hpast p mem hlt hp h]
      exact hs.active p mem h
  · intro mem hlt hout
    have hne : mem ≠ s.nextId := by
      intro he
      apply hout key
      rw [hmap, he, AList.lookup_insert]
    have hold : mem < s.nextId := by omega
    rw [hsame mem hold, haims mem hold]
    by_cases hin : ∃ p, s.memtables.lookup p = some mem
    · obtain ⟨p, hp⟩ := hin
      exact bound_unmapped env cap s mem (hs.active p mem hp)
    · exact hs.other mem hold (not_exists.mp hin)

variable [DecidableEq ι]

theorem bounded_writer (hs : Bounded env cap s) (i : ι) (w : Writer ρ)
    (hw : t.writers = Function.update s.writers i w) (hheap : t.heap = s.heap)
    (hnext : t.nextId = s.nextId) (hmap : t.memtables = s.memtables)
    (haims : ∀ mem, w.pc.aims mem = (s.writers i).pc.aims mem)
    (hpast : ∀ mem, w.pc.past mem = (s.writers i).pc.past mem) : Bounded env cap t := by
  refine bounded_keep env cap s t hs hheap hnext ?_ ?_ (fun p mem h => hmap ▸ h)
  · intro mem _
    have h := aims_update s t i w hw mem
    rw [haims mem] at h
    omega
  · intro p mem _
    have h := past_update s t i w hw mem
    rw [hpast mem] at h
    exact Or.inl (by omega)

theorem bounded_insert (hs : Bounded env cap s) (i : ι) (r : ρ) (mem : Nat) (done todo : List ρ)
    (hw : s.writers i = ⟨.appended r mem, done, todo⟩) (hfit : env.Fits cap r) :
    Bounded env cap
      { s.setWriter i ⟨.inserted (env.key r) mem, done ++ [r], todo⟩ with
        heap := Function.update s.heap mem (env.write (s.heap mem) r)
        written := s.written ++ [r] } := by
  have haims := aims_update s
    { s.setWriter i ⟨.inserted (env.key r) mem, done ++ [r], todo⟩ with
      heap := Function.update s.heap mem (env.write (s.heap mem) r)
      written := s.written ++ [r] } i ⟨.inserted (env.key r) mem, done ++ [r], todo⟩ rfl
  have hpast := past_update s
    { s.setWriter i ⟨.inserted (env.key r) mem, done ++ [r], todo⟩ with
      heap := Function.update s.heap mem (env.write (s.heap mem) r)
      written := s.written ++ [r] } i ⟨.inserted (env.key r) mem, done ++ [r], todo⟩ rfl
  simp only [hw, Pc.aims, Pc.past, add_zero] at haims hpast
  have hsize : (env.write (s.heap mem) r).sizeBytes =
      (s.heap mem).sizeBytes + (rowKeySize + (env.serialize r).length) := rfl
  have hfit' : rowKeySize + (env.serialize r).length ≤ cap := hfit
  refine ⟨?_, ?_, ?_⟩
  · intro m
    by_cases he : m = mem
    · simp only [he, Function.update_self]
      exact hs.limit mem
    · simp only [Function.update_of_ne he]
      exact hs.limit m
  · intro p m h
    have hold := hs.active p m h
    by_cases he : m = mem
    · subst he
      have hp := hpast m
      rw [if_pos rfl] at hp
      rw [hp, Nat.mul_add]
      simp only [Function.update_self, hsize]
      omega
    · have hp := hpast m
      rw [if_neg (Ne.symm he), add_zero] at hp
      rw [hp]
      simp only [Function.update_of_ne he]
      exact hold
  · intro m hlt hout
    have hold := hs.other m hlt hout
    by_cases he : m = mem
    · subst he
      have ha := haims m
      rw [if_pos rfl] at ha
      rw [← ha, Nat.mul_add] at hold
      simp only [Function.update_self, hsize]
      omega
    · have ha := haims m
      rw [if_neg (Ne.symm he), add_zero] at ha
      rw [ha]
      simp only [Function.update_of_ne he]
      exact hold

/-- `maybe_freeze` swaps its memtable out: no writer past an insertion into it is left to find it
in the map. -/
theorem bounded_replace (home : Nat → UInt64) (hr : Routed env home s) (hs : Bounded env cap s)
    (i : ι) (key : UInt64) (mem : Nat) (done todo : List ρ)
    (hw : s.writers i = ⟨.full key mem, done, todo⟩) :
    Bounded env cap ((s.alloc env key).setWriter i ⟨.frozen key mem, done, todo⟩) := by
  have hmine := (hr.held key mem (.writer i (by rw [hw]; rfl))).2
  refine bounded_alloc env cap s _ hs key rfl rfl rfl ?_ ?_ fun p m h => (hr.held p m (.active h)).1
  · intro m _
    have h := aims_update s ((s.alloc env key).setWriter i ⟨.frozen key mem, done, todo⟩) i _ rfl m
    simpa [hw, Pc.aims] using h
  · intro p m _ hp hl
    have hhome := (hr.held p m (.active hl)).2
    have hne : mem ≠ m := by
      intro he
      exact hp (by rw [← hhome, ← he, hmine])
    have h := past_update s ((s.alloc env key).setWriter i ⟨.frozen key mem, done, todo⟩) i _ rfl m
    simpa [hw, Pc.past, hne] using h

theorem bounded_fetchNew (home : Nat → UInt64) (hr : Routed env home s) (hs : Bounded env cap s)
    (i : ι) (r : ρ) (done todo : List ρ) (hw : s.writers i = ⟨.loop, done, r :: todo⟩) :
    Bounded env cap
      ((s.alloc env (env.key r)).setWriter i ⟨.fetched r s.nextId, done, todo⟩) := by
  refine bounded_alloc env cap s _ hs (env.key r) rfl rfl rfl ?_ ?_
    fun p m h => (hr.held p m (.active h)).1
  · intro m hlt
    have h := aims_update s
      ((s.alloc env (env.key r)).setWriter i ⟨.fetched r s.nextId, done, todo⟩) i _ rfl m
    simpa [hw, Pc.aims, Nat.ne_of_gt hlt] using h
  · intro p m _ _ _
    have h := past_update s
      ((s.alloc env (env.key r)).setWriter i ⟨.fetched r s.nextId, done, todo⟩) i _ rfl m
    simpa [hw, Pc.past] using h

theorem bounded_step (a : Action ι ρ) (home : Nat → UInt64) (hr : Routed env home s)
    (hc : Carries (env.Fits cap) s) (hs : Bounded env cap s) (h : step env s a = some t) :
    Bounded env cap t := by
  -- the flush worker and `close` leave the writers and their memtables alone
  have hothers (u : Engine ι ρ) (hu : u.writers = s.writers) (hheap : u.heap = s.heap)
      (hnext : u.nextId = s.nextId)
      (hmap : ∀ p mem, u.memtables.lookup p = some mem → s.memtables.lookup p = some mem) :
      Bounded env cap u := by
    refine bounded_keep env cap s u hs hheap hnext ?_ ?_ hmap
    · intro mem _
      rw [Engine.aims, hu]
      exact le_rfl
    · intro p mem _
      refine Or.inl ?_
      rw [Engine.past, ← hu]
      exact le_rfl
  cases stepped_of_step env s a t h with
  | refused i batch hpc hc => exact hs
  | begin i batch hpc hc =>
    exact bounded_writer env cap s _ hs i _ rfl rfl rfl rfl (by simp [hpc, Pc.aims])
      (by simp [hpc, Pc.past])
  | fetchOld i done r todo mem hw hl =>
    refine bounded_keep env cap s _ hs rfl rfl ?_ ?_ fun _ _ hin => hin
    · intro m hout
      have hne : mem ≠ m := by
        intro he
        exact hout (env.key r) (he ▸ hl)
      have hcount := aims_update s (s.setWriter i ⟨.fetched r mem, done, todo⟩) i _ rfl m
      simp only [hw, Pc.aims, if_neg hne, add_zero] at hcount
      omega
    · intro p m _
      have hcount := past_update s (s.setWriter i ⟨.fetched r mem, done, todo⟩) i _ rfl m
      simp only [hw, Pc.past, add_zero] at hcount
      exact Or.inl (by omega)
  | fetchNew i done r todo hw hl => exact bounded_fetchNew env cap s home hr hs i r done todo hw
  | append i r mem done todo hw =>
    exact bounded_writer env cap s _ hs i _ rfl rfl rfl rfl (by simp [hw, Pc.aims])
      (by simp [hw, Pc.past])
  | insert i r mem done todo hw =>
    exact bounded_insert env cap s hs i r mem done todo hw (hc.target i r mem (by rw [hw]; rfl))
  | testFull i key mem done todo hw hf =>
    exact bounded_writer env cap s _ hs i _ rfl rfl rfl rfl (by simp [hw, Pc.aims])
      (by simp [hw, Pc.past])
  | testRoom i key mem done todo hw hf =>
    refine bounded_keep env cap s _ hs rfl rfl ?_ ?_ fun _ _ hin => hin
    · intro m _
      have hcount := aims_update s (s.setWriter i ⟨.loop, done, todo⟩) i _ rfl m
      simp only [hw, Pc.aims, add_zero] at hcount
      omega
    · intro p m _
      have hcount := past_update s (s.setWriter i ⟨.loop, done, todo⟩) i _ rfl m
      by_cases he : mem = m
      · exact Or.inr (he ▸ hf)
      · simp only [hw, Pc.past, if_neg he, add_zero] at hcount
        exact Or.inl (by omega)
  | replace i key mem done todo hw =>
    exact bounded_replace env cap s home hr hs i key mem done todo hw
  | enqueue i key mem done todo hw hq =>
    exact bounded_writer env cap s _ hs i _ rfl rfl rfl rfl (by simp [hw, Pc.aims])
      (by simp [hw, Pc.past])
  | dropped i key mem done todo hw hq =>
    exact bounded_writer env cap s _ hs i _ rfl rfl rfl rfl (by simp [hw, Pc.aims])
      (by simp [hw, Pc.past])
  | finish i done hw =>
    exact bounded_writer env cap s _ hs i _ rfl rfl rfl rfl (by simp [hw, Pc.aims])
      (by simp [hw, Pc.past])
  | flush req stage sig stage' hw hn =>
    obtain ⟨tables, seqs, he⟩ := flushSignal_eq env s req sig
    rw [he]
    exact hothers _ rfl rfl rfl fun _ _ hin => hin
  | letGo key keys mem hc hl he => exact hothers _ rfl rfl rfl (lookup_erase s key)
  | remove key keys mem hc hl he => exact hothers _ rfl rfl rfl (lookup_erase s key)
  | recv req queue hw hq => exact hothers _ rfl rfl rfl fun _ _ hin => hin
  | flushError req stage sig stage' hw hn => exact hothers _ rfl rfl rfl fun _ _ hin => hin
  | checkpoint req hw hwal => exact hothers _ rfl rfl rfl fun _ _ hin => hin
  | noWal req hw hwal => exact hothers _ rfl rfl rfl fun _ _ hin => hin
  | close hc => exact hothers _ rfl rfl rfl fun _ _ hin => hin
  | listKeys hc => exact hothers _ rfl rfl rfl fun _ _ hin => hin
  | absent key keys hc hl => exact hothers _ rfl rfl rfl fun _ _ hin => hin
  | send mem key keys hc hq => exact hothers _ rfl rfl rfl fun _ _ hin => hin
  | ret hc => exact hothers _ rfl rfl rfl fun _ _ hin => hin

end Steps

/-- In every state the engine can reach with `n` tasks calling `write_batch`, whatever the order of
their steps: no memtable's accounted size is more than `n` rows past the last size at which it is
not full, and while no call is being served the active memtables are not full at all. -/
theorem memtable_size_bounded [Fintype ι] [DecidableEq ι] (env : Env ρ) (cap : Nat)
    (acts : List (Action ι ρ)) (t : Engine ι ρ)
    (hfit : ∀ a ∈ acts, Batches (env.Fits cap) a)
    (h : run (step env) (Engine.open env) acts = some t) :
    (∀ mem < t.nextId,
      (t.heap mem).sizeBytes ≤ env.memtableSizeBytes - 1 + cap * Fintype.card ι) ∧
    ((∀ i, (t.writers i).pc = .idle) → ∀ p mem, t.memtables.lookup p = some mem →
      (t.heap mem).sizeBytes ≤ env.memtableSizeBytes - 1 ∧
        (0 < env.memtableSizeBytes → (t.heap mem).isFull = false)) := by
  have ht := run_invariant (step env) (fun _ a => Batches (env.Fits cap) a)
    (fun s => (∃ home, Routed env home s) ∧ Carries (env.Fits cap) s ∧ Bounded env cap s)
    (by
      rintro s a u ⟨⟨home, hr⟩, hc, hb⟩ hok hstep
      exact ⟨routed_step env s u a ⟨home, hr⟩ hstep,
        carries_step _ env s u a hc hok (stepped_of_step env s a u hstep),
        bounded_step env cap s u a home hr hc hb hstep⟩)
    acts (Engine.open env) t ⟨⟨_, routed_open env⟩, carries_open _ env, bounded_open env cap⟩
    (along_of_forall _ _ acts hfit _) h
  obtain ⟨-, -, hb⟩ := ht
  constructor
  · intro mem hlt
    by_cases hin : ∃ p, t.memtables.lookup p = some mem
    · obtain ⟨p, hp⟩ := hin
      have hbound := bound_unmapped env cap t mem (hb.active p mem hp)
      omega
    · have hbound := hb.other mem hlt (not_exists.mp hin)
      omega
  · intro hidle p mem hp
    have hnone : t.past mem = 0 := by
      rw [Engine.past]
      exact Finset.sum_eq_zero fun i _ => by rw [hidle i]; rfl
    have hsize : (t.heap mem).sizeBytes ≤ env.memtableSizeBytes - 1 := by
      simpa [hnone] using hb.active p mem hp
    refine ⟨hsize, fun hpos => ?_⟩
    simp only [MemTable.isFull, hb.limit mem, decide_eq_false_iff_not]
    omega

/-- Two calls with rows of 103 bytes and a limit of 150 bytes. -/
theorem memtable_size_bounded_staleFetch :
    ∃ t, run (step smallConfig.env) (Engine.open smallConfig.env) staleFetch = some t ∧
      ∀ mem < t.nextId, (t.heap mem).sizeBytes ≤ 149 + 103 * 2 :=
  ⟨_, rfl, (memtable_size_bounded smallConfig.env 103 staleFetch _ (by decide) rfl).1⟩

end InfraLens.Storage
