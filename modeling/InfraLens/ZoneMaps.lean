import InfraLens.Upkeep
import InfraLens.Signals
import Mathlib.Order.Bounds.Basic

/-! The zone maps of registered tables over whole runs: exact, so that the time-range
candidates (partition.rs) miss no table with a row in the range. -/
namespace InfraLens.Tables
open Model Bloom LibRun

variable {ρ : Type}

def ZoneMap.overlapsTimeRange (zm : ZoneMap) (start finish : UInt64) : Bool :=
  decide (zm.minTimestampNs ≤ finish) && decide (zm.maxTimestampNs ≥ start)

def SignalPartition.candidates (s : SignalPartition ρ) (start finish : UInt64) :
    List SSTableMeta :=
  s.sstables.filter fun m => m.zoneMap.overlapsTimeRange start finish

def times (layout : Layout ρ) (rows : List ρ) : Set Nat :=
  {n | ∃ r ∈ rows, (layout.timestampNs r).toNat = n}

/-- The zone map counts the rows and bounds their times exactly. -/
structure Exact (layout : Layout ρ) (zm : ZoneMap) (rows : List ρ) : Prop where
  rowCount : zm.rowCount = rows.length
  least : rows ≠ [] → IsLeast (times layout rows) zm.minTimestampNs.toNat
  greatest : rows ≠ [] → IsGreatest (times layout rows) zm.maxTimestampNs.toNat

theorem toNat_observe_min (zm : ZoneMap) (ts : UInt64) :
    (zm.observeTimestamp ts).minTimestampNs.toNat = min zm.minTimestampNs.toNat ts.toNat := by
  simp only [ZoneMap.observeTimestamp, UInt64.lt_iff_toNat_lt]
  split <;> omega

theorem toNat_observe_max (zm : ZoneMap) (ts : UInt64) :
    (zm.observeTimestamp ts).maxTimestampNs.toNat = max zm.maxTimestampNs.toNat ts.toNat := by
  simp only [ZoneMap.observeTimestamp, gt_iff_lt, UInt64.lt_iff_toNat_lt]
  split <;> omega

section Observe
variable (layout : Layout ρ)

/-- What the fold over the rows keeps, from any zone map on: the count, the bounds, and
that each bound is the first one or the time of a row. -/
theorem observe_rows (rows : List ρ) (zm : ZoneMap) :
    let out := rows.foldl (fun zm r => zm.observeTimestamp (layout.timestampNs r)) zm
    out.rowCount = zm.rowCount + rows.length ∧
      (out.minTimestampNs.toNat ≤ zm.minTimestampNs.toNat ∧
        ∀ n ∈ times layout rows, out.minTimestampNs.toNat ≤ n) ∧
      (out.minTimestampNs.toNat = zm.minTimestampNs.toNat ∨
        out.minTimestampNs.toNat ∈ times layout rows) ∧
      (zm.maxTimestampNs.toNat ≤ out.maxTimestampNs.toNat ∧
        ∀ n ∈ times layout rows, n ≤ out.maxTimestampNs.toNat) ∧
      (out.maxTimestampNs.toNat = zm.maxTimestampNs.toNat ∨
        out.maxTimestampNs.toNat ∈ times layout rows) := by
  induction rows generalizing zm with
  | nil => simp [times]
  | cons r rows ih =>
    have hmin := toNat_observe_min zm (layout.timestampNs r)
    have hmax := toNat_observe_max zm (layout.timestampNs r)
    have hmem : ∀ n, n ∈ times layout (r :: rows) ↔
        n = (layout.timestampNs r).toNat ∨ n ∈ times layout rows := by
      intro n
      simp [times, eq_comm]
    obtain ⟨hcount, hlo, hlo', hhi, hhi'⟩ := ih (zm.observeTimestamp (layout.timestampNs r))
    simp only [List.foldl_cons, hmem]
    refine ⟨?_, ⟨by omega, ?_⟩, ?_, ⟨by omega, ?_⟩, ?_⟩
    · have hone : (zm.observeTimestamp (layout.timestampNs r)).rowCount = zm.rowCount + 1 := rfl
      rw [hcount, hone, List.length_cons]
      omega
    · intro n hn
      cases hn with
      | inl he => omega
      | inr hr => exact hlo.2 n hr
    · cases hlo' with
      | inl he =>
        rw [hmin] at he
        omega
      | inr hr => exact Or.inr (Or.inr hr)
    · intro n hn
      cases hn with
      | inl he => omega
      | inr hr => exact hhi.2 n hr
    · cases hhi' with
      | inl he =>
        rw [hmax] at he
        omega
      | inr hr => exact Or.inr (Or.inr hr)

/-- The bounds a new zone map starts from are those of no time, so every row moves them. -/
theorem exact_zoneMap (rows : List ρ) : Exact layout (layout.zoneMap rows) rows := by
  obtain ⟨hcount, hlo, hlo', hhi, hhi'⟩ := observe_rows layout rows ZoneMap.new
  refine ⟨by simpa [Layout.zoneMap, ZoneMap.new] using hcount, ?_, ?_⟩
  · intro hne
    obtain ⟨r, hr⟩ := List.exists_mem_of_ne_nil rows hne
    have hle := hlo.2 _ ⟨r, hr, rfl⟩
    refine ⟨?_, hlo.2⟩
    cases hlo' with
    | inr hmem => exact hmem
    | inl he =>
      have htop : ZoneMap.new.minTimestampNs.toNat = 2 ^ 64 - 1 := rfl
      have hlt := (layout.timestampNs r).toNat_lt
      refine ⟨r, hr, ?_⟩
      change _ = (rows.foldl _ ZoneMap.new).minTimestampNs.toNat
      omega
  · intro hne
    obtain ⟨r, hr⟩ := List.exists_mem_of_ne_nil rows hne
    have hle := hhi.2 _ ⟨r, hr, rfl⟩
    refine ⟨?_, hhi.2⟩
    cases hhi' with
    | inr hmem => exact hmem
    | inl he =>
      have hbot : ZoneMap.new.maxTimestampNs.toNat = 0 := rfl
      refine ⟨r, hr, ?_⟩
      change _ = (rows.foldl _ ZoneMap.new).maxTimestampNs.toNat
      omega

theorem overlaps_of_exact (zm : ZoneMap) (rows : List ρ) (h : Exact layout zm rows) (r : ρ)
    (hr : r ∈ rows) (start finish : UInt64) (hstart : start ≤ layout.timestampNs r)
    (hfinish : layout.timestampNs r ≤ finish) : zm.overlapsTimeRange start finish = true := by
  have hne := List.ne_nil_of_mem hr
  have hlo := (h.least hne).2 ⟨r, hr, rfl⟩
  have hhi := (h.greatest hne).2 ⟨r, hr, rfl⟩
  rw [UInt64.le_iff_toNat_le] at hstart hfinish
  simp only [ZoneMap.overlapsTimeRange, ge_iff_le, UInt64.le_iff_toNat_le, Bool.and_eq_true,
    decide_eq_true_eq]
  exact ⟨hlo.trans hfinish, hstart.trans hhi⟩

end Observe

/-- In every state a run of flushes, compactions and reopenings reaches, each registered
zone map is exact for the rows of its table, and the candidates of a time range include
every table with a row in it. -/
theorem zone_maps_exact (sip : List UInt8 → UInt64 → UInt64) (sizing : Sizing)
    (sig : SignalType) (acts : List (Upkeep (SignalRow sig))) :
    ∃ t, run (upkeep (signalLayout sip sizing sig)) (SignalPartition.open Dir.empty) acts =
        some t ∧
      ∀ m ∈ t.sstables, ∃ rows, t.dir.parquet.lookup m.seq = some rows ∧
        Exact (signalLayout sip sizing sig) m.zoneMap rows ∧
        ∀ start finish, (∃ r ∈ rows, start ≤ timestampNs sig r ∧ timestampNs sig r ≤ finish) →
          m ∈ t.candidates start finish := by
  obtain ⟨t, ht⟩ := upkeep_runs (signalLayout sip sizing sig)
    (SignalPartition.open Dir.empty) acts
  refine ⟨t, ht, ?_⟩
  have hkept := run_invariant _ (fun _ _ => True)
    (Kept (signalLayout sip sizing sig) (fun _ _ => True))
    (fun s a t hs _ hstep =>
      kept_upkeep _ _ s a t hs (fun _ _ => trivial) (fun _ => trivial) hstep)
    acts _ t (kept_empty _ _) (along_true _ _ acts) ht
  intro m hm
  obtain ⟨rows, bytes, hfiles, hzone, _⟩ := hkept.files m hm
  have hexact : Exact (signalLayout sip sizing sig) m.zoneMap rows :=
    hzone ▸ exact_zoneMap (signalLayout sip sizing sig) rows
  refine ⟨rows, congrArg (·.1) hfiles, hexact, ?_⟩
  intro start finish hin
  obtain ⟨r, hr, hstart, hfinish⟩ := hin
  refine List.mem_filter.mpr ⟨hm, ?_⟩
  exact overlaps_of_exact _ m.zoneMap rows hexact r hr start finish hstart hfinish

end InfraLens.Tables
