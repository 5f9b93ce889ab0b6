import InfraLens.SSTableDir
import InfraLens.LibRun

/-! A crash between two file-system steps of a flush or of a compaction: what
`SignalPartition::open` makes of the directory that is left. -/
namespace InfraLens.Tables
open LibRun

variable {ρ : Type}

inductive Op (ρ : Type) where
  | flush (rows : List ρ)
  | compact

section Ops
variable (layout : Layout ρ) (s : SignalPartition ρ)

def Op.steps : Op ρ → List (FsStep ρ)
  | .flush rows => flushSteps layout s.nextSeq rows
  | .compact =>
    if s.sstables.length < 2 then [] else compactSteps layout s.dir s.sstables s.nextSeq

def Op.complete : Op ρ → SignalPartition ρ
  | .flush rows => s.flush layout rows
  | .compact => s.compact layout

/-- The directory after the first `k` steps of an operation. -/
def crashDir (op : Op ρ) (k : Nat) : Dir ρ := ((op.steps layout s).take k).foldl Dir.apply s.dir

def Present (p : SignalPartition ρ) : Prop :=
  ∀ m ∈ p.sstables, (p.dir.parquet.lookup m.seq).isSome = true

/-- Reopened after the crash, the tables are all there and hold the rows registered
before the operation or after it. -/
def Consistent (op : Op ρ) (k : Nat) : Prop :=
  Present (SignalPartition.open (crashDir layout s op k)) ∧
    ((SignalPartition.open (crashDir layout s op k)).rows = s.rows ∨
      (SignalPartition.open (crashDir layout s op k)).rows = (op.complete layout s).rows)

/-- The file-system steps that write the output of a compaction. -/
def outputCount : Nat := if (s.dir.read s.sstables).isEmpty then 0 else 4

/-- A crash point of a compaction is safe before the output's zone map is written, and
after it between two inputs' deletions if the inputs still there have no rows. -/
def SafePoint : Op ρ → Nat → Prop
  | .flush _, _ => True
  | .compact, k => s.sstables.length < 2 ∨ k < outputCount s ∨
      ((k - outputCount s) % 3 = 0 ∧
        ∀ m ∈ s.sstables.drop ((k - outputCount s) / 3), s.dir.parquet.lookup m.seq = some [])

end Ops

/-- The registered tables are those of the directory, and numbers are given out in order. -/
structure Sound (s : SignalPartition ρ) (rows : Nat → List ρ) : Prop where
  holds : Holds s.dir (s.sstables.map SSTableMeta.seq) rows
  below : ∀ m ∈ s.sstables, m.seq < s.nextSeq

theorem sound_open (d : Dir ρ) (seqs : List Nat) (rows : Nat → List ρ) (h : Holds d seqs rows) :
    Sound (SignalPartition.open d) rows := by
  have hp := open_seqs d
  refine ⟨⟨hp.symm, ?_⟩, ?_⟩
  · intro n hn
    exact h.parquet n ((hp.trans h.keys).mem_iff.mp hn)
  · intro m hm
    exact open_nextSeq d m.seq (hp.mem_iff.mp (List.mem_map_of_mem hm))

theorem present_of_holds (d : Dir ρ) (seqs : List Nat) (rows : Nat → List ρ)
    (h : Holds d seqs rows) : Present (SignalPartition.open d) := by
  intro m hm
  have hs := (sound_open d seqs rows h).holds.parquet m.seq (List.mem_map_of_mem hm)
  change (d.parquet.lookup m.seq).isSome = true
  have hd : d.parquet.lookup m.seq = some (rows m.seq) := hs
  simp [hd]

theorem not_present (d : Dir ρ) (n : Nat) (hz : n ∈ d.zonemap.keys)
    (hp : d.parquet.lookup n = none) : ¬ Present (SignalPartition.open d) := by
  intro h
  obtain ⟨m, hm, he⟩ := List.mem_map.mp ((open_seqs d).mem_iff.mpr hz)
  have hs : (d.parquet.lookup m.seq).isSome = true := h m hm
  rw [he, hp] at hs
  cases hs

/-! ### The deletions -/

/-- A crash among the deletions: between two inputs those not yet reached are all there,
inside an input its zone map is left without rows. -/
theorem crash_deleting (d : Dir ρ) (kept : List Nat) (rows : Nat → List ρ)
    (inputs : List SSTableMeta) (k : Nat)
    (h : Holds d (kept ++ inputs.map SSTableMeta.seq) rows) (hk : k ≤ 3 * inputs.length) :
    (k % 3 = 0 → Holds (((deleteSteps inputs).take k).foldl Dir.apply d)
        (kept ++ (inputs.drop (k / 3)).map SSTableMeta.seq) rows) ∧
      (k % 3 ≠ 0 → ¬ Present
        (SignalPartition.open (((deleteSteps inputs).take k).foldl Dir.apply d))) := by
  induction inputs generalizing d k with
  | nil =>
    have hk0 : k = 0 := by simpa using hk
    subst hk0
    exact ⟨fun _ => h, fun hne => absurd rfl hne⟩
  | cons m inputs ih =>
    have hmem : m.seq ∈ d.zonemap.keys := h.keys.mem_iff.mpr (by simp)
    have hgone : (d.apply (.removeParquet m.seq)).parquet.lookup m.seq = none :=
      AList.lookup_erase m.seq d.parquet
    match k with
    | 0 => exact ⟨fun _ => h, fun hne => absurd rfl hne⟩
    | 1 => exact ⟨fun h1 => absurd h1 (by decide), fun _ => not_present _ m.seq hmem hgone⟩
    | 2 => exact ⟨fun h2 => absurd h2 (by decide), fun _ => not_present _ m.seq hmem hgone⟩
    | k + 3 =>
      have hnext : Holds ((removeSteps m).foldl Dir.apply d)
          (kept ++ inputs.map SSTableMeta.seq) rows := by
        have hnd := holds_nodup d _ rows h
        rw [List.map_cons, List.nodup_middle] at hnd
        have hnot := (List.nodup_cons.mp hnd).1
        refine ⟨?_, ?_⟩
        · change ((d.zonemap.erase m.seq).keys).Perm _
          rw [AList.keys_erase]
          have he := (h.keys.trans List.perm_middle).erase m.seq
          simpa using he
        · intro n hn
          have hne : n ≠ m.seq := fun he => hnot (he ▸ hn)
          change (d.parquet.erase m.seq).lookup n = _
          rw [AList.lookup_erase_ne hne]
          refine h.parquet n ?_
          rw [List.map_cons]
          exact (List.perm_middle.mem_iff).mpr (List.mem_cons_of_mem _ hn)
      obtain ⟨hgood, hbad⟩ := ih _ k hnext (by simp only [List.length_cons] at hk; omega)
      have htake : ((deleteSteps (m :: inputs)).take (k + 3) : List (FsStep ρ)) =
          removeSteps m ++ (deleteSteps inputs).take k := rfl
      rw [htake, List.foldl_append, Nat.add_mod_right, Nat.add_div_right k (by decide)]
      exact ⟨hgood, hbad⟩

/-! ### The writes -/

section Writes
variable (layout : Layout ρ) (d : Dir ρ) (seqs : List Nat) (rows : Nat → List ρ) (n : Nat)
  (out : List ρ)

theorem crash_output (h : Holds d seqs rows) (hn : n ∉ seqs) (k : Nat) (hk : k < 4) :
    Holds (((outputSteps layout n out).take k).foldl Dir.apply d) seqs rows := by
  have hw := holds_writeParquet d seqs rows h n out hn
  match k with
  | 0 => exact h
  | 1 => exact hw
  | 2 => exact hw
  | 3 => exact ⟨hw.keys, hw.parquet⟩

theorem holds_output (h : Holds d seqs rows) (hn : n ∉ seqs) :
    Holds ((outputSteps layout n out).foldl Dir.apply d) (n :: seqs)
      (Function.update rows n out) := by
  have hw := crash_output layout d seqs rows n out h hn 3 (by decide)
  exact holds_writeZonemap _ seqs rows hw n out _ hn (AList.lookup_insert d.parquet)

theorem crash_flush (h : Holds d seqs rows) (hn : n ∉ seqs) (k : Nat) (hk : k < 3) :
    Holds (((flushSteps layout n out).take k).foldl Dir.apply d) seqs rows := by
  have hw := holds_writeParquet d seqs rows h n out hn
  match k with
  | 0 => exact h
  | 1 => exact hw
  | 2 => exact ⟨hw.keys, hw.parquet⟩

theorem holds_flush (h : Holds d seqs rows) (hn : n ∉ seqs) :
    Holds ((flushSteps layout n out).foldl Dir.apply d) (n :: seqs)
      (Function.update rows n out) := by
  have hw := crash_flush layout d seqs rows n out h hn 2 (by decide)
  exact holds_writeZonemap _ seqs rows hw n out _ hn (AList.lookup_insert d.parquet)

end Writes

theorem flatMap_update (seqs : List Nat) (rows : Nat → List ρ) (n : Nat) (out : List ρ)
    (hn : n ∉ seqs) : seqs.flatMap (Function.update rows n out) = seqs.flatMap rows := by
  apply List.flatMap_congr
  intro m hm
  have hne : m ≠ n := fun he => hn (he ▸ hm)
  rw [Function.update_of_ne hne]

/-! ### Operations on a sound table -/

section Sound
variable (layout : Layout ρ) (s : SignalPartition ρ) (rows : Nat → List ρ)

theorem rows_of_sound (hs : Sound s rows) :
    s.dir.read s.sstables = (s.sstables.map SSTableMeta.seq).flatMap rows :=
  read_of_parquet s.dir s.sstables rows hs.holds.parquet

theorem next_fresh (hs : Sound s rows) : s.nextSeq ∉ s.sstables.map SSTableMeta.seq := by
  intro h
  obtain ⟨m, hm, he⟩ := List.mem_map.mp h
  exact absurd (hs.below m hm) (by omega)

theorem sound_of_holds (metas : List SSTableMeta) (d : Dir ρ) (next : Nat) (seqs : List Nat)
    (h : Holds d seqs rows) (hp : (metas.map SSTableMeta.seq).Perm seqs)
    (hb : ∀ m ∈ metas, m.seq < next) : Sound ⟨d, metas, next⟩ rows :=
  ⟨⟨h.keys.trans hp.symm, fun n hn => h.parquet n (hp.mem_iff.mp hn)⟩, hb⟩

theorem sound_flush (hs : Sound s rows) (out : List ρ) :
    Sound (s.flush layout out) (Function.update rows s.nextSeq out) := by
  refine sound_of_holds _ _ _ _ _
    (holds_flush layout s.dir _ rows s.nextSeq out hs.holds (next_fresh s rows hs)) ?_ ?_
  · rw [List.map_append]
    exact List.perm_append_singleton _ _
  · intro m hm
    cases List.mem_append.mp hm with
    | inl h => exact Nat.lt_succ_of_lt (hs.below m h)
    | inr h =>
      rw [List.mem_singleton.mp h]
      exact Nat.lt_succ_self _

theorem rows_flush (hs : Sound s rows) (out : List ρ) :
    (s.flush layout out).rows = s.rows + (out : Multiset ρ) := by
  have hf := rows_of_sound _ _ (sound_flush layout s rows hs out)
  rw [SignalPartition.rows, hf, SignalPartition.rows, rows_of_sound s rows hs]
  simp only [SignalPartition.flush, List.map_append, List.map_cons, List.map_nil,
    List.flatMap_append, List.flatMap_cons, List.flatMap_nil, List.append_nil,
    flatMap_update _ rows s.nextSeq out (next_fresh s rows hs), Function.update_self,
    ← Multiset.coe_add]

theorem flush_crash (hs : Sound s rows) (out : List ρ) (k : Nat) :
    Consistent layout s (.flush out) k ∧
      ∃ rows', Sound (SignalPartition.open (crashDir layout s (.flush out) k)) rows' := by
  have hfresh := next_fresh s rows hs
  by_cases hk : k < 3
  · have h := crash_flush layout s.dir _ rows s.nextSeq out hs.holds hfresh k hk
    refine ⟨⟨present_of_holds _ _ _ h, Or.inl ?_⟩, rows, sound_open _ _ _ h⟩
    rw [crashDir, Op.steps, open_rows _ _ _ h, SignalPartition.rows, rows_of_sound s rows hs]
  · have hall : (flushSteps layout s.nextSeq out).take k = flushSteps layout s.nextSeq out :=
      List.take_of_length_le (by simp only [flushSteps, List.length_cons, List.length_nil]; omega)
    have h := holds_flush layout s.dir _ rows s.nextSeq out hs.holds hfresh
    rw [← hall] at h
    refine ⟨⟨present_of_holds _ _ _ h, Or.inr ?_⟩, _, sound_open _ _ _ h⟩
    rw [crashDir, Op.steps, open_rows _ _ _ h, Op.complete, rows_flush layout s rows hs,
      SignalPartition.rows, rows_of_sound s rows hs, List.flatMap_cons, Function.update_self,
      flatMap_update _ rows s.nextSeq out hfresh, ← Multiset.coe_add, add_comm]

theorem flatMap_eq_nil_iff (hs : Sound s rows) (left : List SSTableMeta)
    (hleft : ∀ m ∈ left, m ∈ s.sstables) :
    (left.map SSTableMeta.seq).flatMap rows = [] ↔
      ∀ m ∈ left, s.dir.parquet.lookup m.seq = some [] := by
  rw [List.flatMap_eq_nil_iff]
  constructor
  · intro h m hm
    rw [hs.holds.parquet m.seq (List.mem_map_of_mem (hleft m hm)),
      h m.seq (List.mem_map_of_mem hm)]
  · intro h n hn
    obtain ⟨m, hm, rfl⟩ := List.mem_map.mp hn
    have hp := hs.holds.parquet m.seq (List.mem_map_of_mem (hleft m hm))
    rw [h m hm] at hp
    exact (Option.some.inj hp).symm

theorem length_deleteSteps (inputs : List SSTableMeta) :
    (deleteSteps inputs : List (FsStep ρ)).length = 3 * inputs.length := by
  induction inputs with
  | nil => rfl
  | cons m inputs ih =>
    have hcons : (deleteSteps (m :: inputs) : List (FsStep ρ)) =
        removeSteps m ++ deleteSteps inputs := rfl
    rw [hcons, List.length_append, ih, List.length_cons]
    simp only [removeSteps, List.length_cons, List.length_nil]
    omega

theorem drop_fresh (hs : Sound s rows) (j : Nat) :
    s.nextSeq ∉ (s.sstables.drop j).map SSTableMeta.seq := by
  intro h
  obtain ⟨m, hm, he⟩ := List.mem_map.mp h
  exact next_fresh s rows hs (List.mem_map.mpr ⟨m, List.mem_of_mem_drop hm, he⟩)

theorem crash_compact_empty (hs : Sound s rows) (he : (s.dir.read s.sstables).isEmpty = true)
    (k : Nat) (hk : k ≤ (compactSteps layout s.dir s.sstables s.nextSeq).length) :
    (k % 3 = 0 → Holds
        (((compactSteps layout s.dir s.sstables s.nextSeq).take k).foldl Dir.apply s.dir)
        ((s.sstables.drop (k / 3)).map SSTableMeta.seq) rows) ∧
      (k % 3 ≠ 0 → ¬ Present (SignalPartition.open
        (((compactSteps layout s.dir s.sstables s.nextSeq).take k).foldl Dir.apply s.dir))) := by
  have hsteps : compactSteps layout s.dir s.sstables s.nextSeq = deleteSteps s.sstables := by
    rw [compactSteps, if_pos he]
  rw [hsteps, length_deleteSteps] at hk
  rw [hsteps]
  exact crash_deleting s.dir [] rows s.sstables k hs.holds hk

/-- A crash of a compaction after its output is written: the output stands beside the
inputs not yet deleted. -/
theorem crash_compact_full (hs : Sound s rows) (he : (s.dir.read s.sstables).isEmpty = false)
    (j : Nat) (hj : 4 + j ≤ (compactSteps layout s.dir s.sstables s.nextSeq).length) :
    (j % 3 = 0 → Holds
        (((compactSteps layout s.dir s.sstables s.nextSeq).take (4 + j)).foldl Dir.apply s.dir)
        (s.nextSeq :: (s.sstables.drop (j / 3)).map SSTableMeta.seq)
        (Function.update rows s.nextSeq (s.dir.read s.sstables))) ∧
      (j % 3 ≠ 0 → ¬ Present (SignalPartition.open
        (((compactSteps layout s.dir s.sstables s.nextSeq).take (4 + j)).foldl
          Dir.apply s.dir))) := by
  have hsteps : compactSteps layout s.dir s.sstables s.nextSeq =
      outputSteps layout s.nextSeq (s.dir.read s.sstables) ++ deleteSteps s.sstables := by
    rw [compactSteps, if_neg (by simp [he])]
  have hlen : (outputSteps layout s.nextSeq (s.dir.read s.sstables)).length = 4 := rfl
  rw [hsteps, List.length_append, hlen, length_deleteSteps] at hj
  have htake : (outputSteps layout s.nextSeq (s.dir.read s.sstables) ++
      deleteSteps s.sstables).take (4 + j) =
      outputSteps layout s.nextSeq (s.dir.read s.sstables) ++
        (deleteSteps s.sstables).take j := by
    rw [List.take_append, hlen, Nat.add_sub_cancel_left,
      List.take_of_length_le (by rw [hlen]; omega)]
  rw [hsteps, htake, List.foldl_append]
  exact crash_deleting _ [s.nextSeq] _ s.sstables j
    (holds_output layout s.dir _ rows s.nextSeq _ hs.holds (next_fresh s rows hs)) (by omega)

/-- Before the output's zone map is written the inputs are all there is. -/
theorem crash_compact_output (hs : Sound s rows)
    (he : (s.dir.read s.sstables).isEmpty = false) (k : Nat) (hk : k < 4) :
    Holds (((compactSteps layout s.dir s.sstables s.nextSeq).take k).foldl Dir.apply s.dir)
      (s.sstables.map SSTableMeta.seq) rows := by
  have hsteps : (compactSteps layout s.dir s.sstables s.nextSeq).take k =
      (outputSteps layout s.nextSeq (s.dir.read s.sstables)).take k := by
    rw [compactSteps, if_neg (by simp [he])]
    exact List.take_append_of_le_length (Nat.le_of_lt hk)
  rw [hsteps]
  exact crash_output layout s.dir _ rows s.nextSeq _ hs.holds (next_fresh s rows hs) k hk

theorem isEmpty_read (hs : Sound s rows) (h : (s.dir.read s.sstables).isEmpty = true) :
    (s.sstables.map SSTableMeta.seq).flatMap rows = [] := by
  rw [← rows_of_sound s rows hs]
  simpa using h

theorem flatMap_drop_of_empty (hs : Sound s rows)
    (h : (s.dir.read s.sstables).isEmpty = true) (j : Nat) :
    ((s.sstables.drop j).map SSTableMeta.seq).flatMap rows = [] := by
  have hall := List.flatMap_eq_nil_iff.mp (isEmpty_read s rows hs h)
  apply List.flatMap_eq_nil_iff.mpr
  intro n hn
  obtain ⟨m, hm, he⟩ := List.mem_map.mp hn
  exact hall n (List.mem_map.mpr ⟨m, List.mem_of_mem_drop hm, he⟩)

theorem compact_complete (hs : Sound s rows) :
    (∃ rows', Sound (s.compact layout) rows') ∧ (s.compact layout).rows = s.rows := by
  by_cases hlen : s.sstables.length < 2
  · rw [SignalPartition.compact, if_pos hlen]
    exact ⟨⟨rows, hs⟩, rfl⟩
  · cases he : (s.dir.read s.sstables).isEmpty with
    | true =>
      have hn : (compactSteps layout s.dir s.sstables s.nextSeq).length =
          3 * s.sstables.length := by
        rw [compactSteps, if_pos he, length_deleteSteps]
      have h := (crash_compact_empty layout s rows hs he _ le_rfl).1 (by omega)
      rw [List.take_length, hn, Nat.mul_div_cancel_left _ (by decide), List.drop_length] at h
      have hc : s.compact layout =
          ⟨(compactSteps layout s.dir s.sstables s.nextSeq).foldl Dir.apply s.dir, [],
            s.nextSeq + 1⟩ := by
        rw [SignalPartition.compact, if_neg hlen, if_pos he]
      rw [hc]
      refine ⟨⟨rows, sound_of_holds rows [] _ _ _ h (List.Perm.refl _) (by simp)⟩, ?_⟩
      rw [SignalPartition.rows, SignalPartition.rows, rows_of_sound s rows hs,
        isEmpty_read s rows hs he]
      rfl
    | false =>
      have hn : (compactSteps layout s.dir s.sstables s.nextSeq).length =
          4 + 3 * s.sstables.length := by
        rw [compactSteps, if_neg (by simp [he]), List.length_append, length_deleteSteps]
        rfl
      have h := (crash_compact_full layout s rows hs he (3 * s.sstables.length) hn.ge).1
        (by omega)
      rw [← hn, List.take_length, Nat.mul_div_cancel_left _ (by decide), List.drop_length] at h
      have hc : s.compact layout =
          ⟨(compactSteps layout s.dir s.sstables s.nextSeq).foldl Dir.apply s.dir,
            [⟨s.nextSeq, layout.zoneMap (s.dir.read s.sstables)⟩], s.nextSeq + 1⟩ := by
        rw [SignalPartition.compact, if_neg hlen, if_neg (by simp [he])]
      rw [hc]
      have hsound := sound_of_holds _ [⟨s.nextSeq, layout.zoneMap (s.dir.read s.sstables)⟩] _
        (s.nextSeq + 1) _ h (List.Perm.refl _) (by simp)
      refine ⟨⟨_, hsound⟩, ?_⟩
      rw [SignalPartition.rows, rows_of_sound _ _ hsound, SignalPartition.rows]
      simp

/-- A compaction that runs keeps the rows, so a crash is consistent when it does. -/
theorem consistent_compact_iff (hs : Sound s rows) (hlen : ¬ s.sstables.length < 2) (k : Nat) :
    Consistent layout s .compact k ↔
      Present (SignalPartition.open
        (((compactSteps layout s.dir s.sstables s.nextSeq).take k).foldl Dir.apply s.dir)) ∧
      (SignalPartition.open
        (((compactSteps layout s.dir s.sstables s.nextSeq).take k).foldl Dir.apply s.dir)).rows =
        ((s.sstables.map SSTableMeta.seq).flatMap rows : List ρ) := by
  rw [Consistent, Op.complete, (compact_complete layout s rows hs).2, or_self, crashDir, Op.steps,
    if_neg hlen, SignalPartition.rows, SignalPartition.rows, rows_of_sound s rows hs]

/-- The outcome of a crash: consistent exactly when safe, and then the reopened table is
sound. -/
def Decided (k : Nat) : Prop :=
  (Consistent layout s .compact k ↔ SafePoint s .compact k) ∧
    (SafePoint s .compact k →
      ∃ rows', Sound (SignalPartition.open (crashDir layout s .compact k)) rows')

theorem decided_skipped (hs : Sound s rows) (hlen : s.sstables.length < 2) (k : Nat) :
    Decided layout s k := by
  have hdir : crashDir layout s .compact k = s.dir := by
    rw [crashDir, Op.steps, if_pos hlen, List.take_nil]
    rfl
  have hc : Consistent layout s .compact k := by
    rw [Consistent, hdir, open_rows _ _ _ hs.holds]
    refine ⟨present_of_holds _ _ _ hs.holds, Or.inl ?_⟩
    rw [SignalPartition.rows, rows_of_sound s rows hs]
  refine ⟨⟨fun _ => Or.inl hlen, fun _ => hc⟩, fun _ => ⟨rows, ?_⟩⟩
  rw [hdir]
  exact sound_open _ _ _ hs.holds

theorem decided_of_absent (hs : Sound s rows) (hlen : ¬ s.sstables.length < 2) (k : Nat)
    (hbad : ¬ Present (SignalPartition.open
      (((compactSteps layout s.dir s.sstables s.nextSeq).take k).foldl Dir.apply s.dir)))
    (hcount : outputCount s ≤ k) (hmod : (k - outputCount s) % 3 ≠ 0) : Decided layout s k := by
  have hunsafe : ¬ SafePoint s .compact k := by
    rw [SafePoint]
    omega
  rw [Decided, consistent_compact_iff layout s rows hs hlen]
  exact ⟨⟨fun h => absurd h.1 hbad, fun h => absurd h hunsafe⟩, fun h => absurd h hunsafe⟩

theorem decided_of_holds (hs : Sound s rows) (hlen : ¬ s.sstables.length < 2) (k : Nat)
    (seqs : List Nat) (rows' : Nat → List ρ)
    (h : Holds (((compactSteps layout s.dir s.sstables s.nextSeq).take k).foldl Dir.apply s.dir)
      seqs rows')
    (hsafe : ((seqs.flatMap rows' : List ρ) : Multiset ρ) =
      ((s.sstables.map SSTableMeta.seq).flatMap rows : List ρ) ↔ SafePoint s .compact k) :
    Decided layout s k := by
  refine ⟨?_, fun _ => ⟨rows', ?_⟩⟩
  · rw [consistent_compact_iff layout s rows hs hlen, open_rows _ _ _ h, hsafe]
    exact and_iff_right (present_of_holds _ _ _ h)
  · rw [crashDir, Op.steps, if_neg hlen]
    exact sound_open _ _ _ h

theorem decided_empty (hs : Sound s rows) (hlen : ¬ s.sstables.length < 2)
    (he : (s.dir.read s.sstables).isEmpty = true) (k : Nat)
    (hk : k ≤ (compactSteps layout s.dir s.sstables s.nextSeq).length) : Decided layout s k := by
  obtain ⟨hgood, hbad⟩ := crash_compact_empty layout s rows hs he k hk
  have hcount : outputCount s = 0 := by rw [outputCount, if_pos he]
  by_cases hmod : k % 3 = 0
  · refine decided_of_holds layout s rows hs hlen k _ _ (hgood hmod) ⟨fun _ => ?_, fun _ => ?_⟩
    · refine Or.inr (Or.inr ⟨by rw [hcount]; exact hmod, ?_⟩)
      rw [hcount]
      exact (flatMap_eq_nil_iff s rows hs _ (fun m hm => List.mem_of_mem_drop hm)).mp
        (flatMap_drop_of_empty s rows hs he _)
    · rw [flatMap_drop_of_empty s rows hs he, isEmpty_read s rows hs he]
  · exact decided_of_absent layout s rows hs hlen k (hbad hmod) (by omega)
      (by rw [hcount]; exact hmod)

theorem decided_full (hs : Sound s rows) (hlen : ¬ s.sstables.length < 2)
    (he : (s.dir.read s.sstables).isEmpty = false) (k : Nat)
    (hk : k ≤ (compactSteps layout s.dir s.sstables s.nextSeq).length) : Decided layout s k := by
  have hcount : outputCount s = 4 := by rw [outputCount, if_neg (by simp [he])]
  by_cases hk4 : k < 4
  · exact decided_of_holds layout s rows hs hlen k _ _
      (crash_compact_output layout s rows hs he k hk4)
      ⟨fun _ => Or.inr (Or.inl (by omega)), fun _ => rfl⟩
  · obtain ⟨j, rfl⟩ : ∃ j, k = 4 + j := ⟨k - 4, by omega⟩
    obtain ⟨hgood, hbad⟩ := crash_compact_full layout s rows hs he j hk
    have hsub : 4 + j - outputCount s = j := by omega
    by_cases hmod : j % 3 = 0
    · refine decided_of_holds layout s rows hs hlen _ _ _ (hgood hmod) ?_
      rw [List.flatMap_cons, Function.update_self,
        flatMap_update _ rows _ _ (drop_fresh s rows hs _), ← Multiset.coe_add,
        rows_of_sound s rows hs, add_eq_left, Multiset.coe_eq_zero,
        flatMap_eq_nil_iff s rows hs _ (fun m hm => List.mem_of_mem_drop hm), SafePoint, hsub,
        hcount]
      simp [hlen, hmod]
    · exact decided_of_absent layout s rows hs hlen _ (hbad hmod) (by omega)
        (by rw [hsub]; exact hmod)

theorem compact_crash (hs : Sound s rows) (k : Nat)
    (hk : k ≤ (Op.compact.steps layout s).length) : Decided layout s k := by
  by_cases hlen : s.sstables.length < 2
  · exact decided_skipped layout s rows hs hlen k
  · rw [Op.steps, if_neg hlen] at hk
    cases he : (s.dir.read s.sstables).isEmpty with
    | true => exact decided_empty layout s rows hs hlen he k hk
    | false => exact decided_full layout s rows hs hlen he k hk

end Sound

/-! ### Runs -/

/-- An operation that completes, or a crash after `k` of its steps and a reopening. -/
inductive Event (ρ : Type) where
  | done (op : Op ρ)
  | crash (op : Op ρ) (k : Nat)

def event (layout : Layout ρ) (s : SignalPartition ρ) : Event ρ → Option (SignalPartition ρ)
  | .done op => some (op.complete layout s)
  | .crash op k => some (SignalPartition.open (crashDir layout s op k))

def SafeEvent (layout : Layout ρ) (s : SignalPartition ρ) : Event ρ → Prop
  | .done _ => True
  | .crash op k => k ≤ (op.steps layout s).length ∧ SafePoint s op k

theorem sound_event (layout : Layout ρ) (s t : SignalPartition ρ) (e : Event ρ)
    (hs : ∃ rows, Sound s rows) (hok : SafeEvent layout s e) (h : event layout s e = some t) :
    ∃ rows, Sound t rows := by
  obtain ⟨rows, hs⟩ := hs
  cases e with
  | done op =>
    cases h
    cases op with
    | flush out => exact ⟨_, sound_flush layout s rows hs out⟩
    | compact => exact (compact_complete layout s rows hs).1
  | crash op k =>
    cases h
    cases op with
    | flush out => exact (flush_crash layout s rows hs out k).2
    | compact => exact (compact_crash layout s rows hs k hok.1).2 hok.2

/-- From every state that completed operations and safe crashes reach, a crash point of an
operation is consistent exactly when it is safe. -/
theorem crash_consistent_iff (layout : Layout ρ) (events : List (Event ρ))
    (s : SignalPartition ρ)
    (hok : Along (event layout) (SafeEvent layout) (SignalPartition.open Dir.empty) events)
    (hrun : run (event layout) (SignalPartition.open Dir.empty) events = some s) (op : Op ρ)
    (k : Nat) (hk : k ≤ (op.steps layout s).length) :
    Consistent layout s op k ↔ SafePoint s op k := by
  have hstart : ∃ rows, Sound (SignalPartition.open (Dir.empty : Dir ρ)) rows :=
    ⟨fun _ => [], sound_open _ [] _ ⟨List.Perm.refl _, by simp⟩⟩
  obtain ⟨rows, hs⟩ := run_invariant (event layout) (SafeEvent layout)
    (fun s => ∃ rows, Sound s rows) (fun s e t hs hok h => sound_event layout s t e hs hok h)
    events _ s hstart hok hrun
  cases op with
  | flush out => exact ⟨fun _ => trivial, fun _ => (flush_crash layout s rows hs out k).1⟩
  | compact => exact (compact_crash layout s rows hs k hk).1

def twoFlushes : List (Event UInt64) := [.done (.flush [1]), .done (.flush [2])]

theorem crash_consistent_iff_unfinished :
    ∃ s, run (event bareLayout) (SignalPartition.open Dir.empty) twoFlushes = some s ∧
      (Consistent bareLayout s .compact 3 ↔ SafePoint s .compact 3) ∧ SafePoint s .compact 3 :=
  ⟨_, rfl, crash_consistent_iff bareLayout twoFlushes _
    ⟨trivial, fun _ h => by cases h; exact ⟨trivial, fun _ h => by cases h; trivial⟩⟩ rfl
    .compact 3 (by decide), Or.inr (Or.inl (by decide))⟩

/-- A crash right after the output's zone map is written doubles every row; one step later
a registered table has no rows file. -/
theorem crash_doubles_rows :
    ∃ s, run (event bareLayout) (SignalPartition.open Dir.empty) twoFlushes = some s ∧
      (Op.compact.steps bareLayout s).length = 10 ∧
      s.rows = {1, 2} ∧ (Op.compact.complete bareLayout s).rows = {1, 2} ∧
      (SignalPartition.open (crashDir bareLayout s .compact 4)).rows = {1, 2, 1, 2} ∧
      ¬ Present (SignalPartition.open (crashDir bareLayout s .compact 5)) := by
  refine ⟨_, rfl, rfl, by decide, by decide, by decide, ?_⟩
  exact not_present _ 1 (by decide) rfl

end InfraLens.Tables
