import InfraLens.Pushdown
import InfraLens.TimeRange
import Mathlib.Data.List.Perm.Subperm

/-! Partition pruning against the scan it prunes, with predicates evaluated row by row as SQL
says. No row is lost; the rows of a partition are repeated when its key is listed once for
each of its SSTables. -/
namespace InfraLens.Query
open Schema Arrow Model LibCut LibKleene LibPull LibExcept

variable {F : Type}

/-! ### Rows read by key -/

section Keyed
variable {κ ρ : Type} [DecidableEq κ] (R : κ → List ρ)

omit [DecidableEq κ] in
theorem flatMap_filter_rows (ks : List κ) :
    (ks.filter fun k => !(R k).isEmpty).flatMap R = ks.flatMap R := by
  induction ks with
  | nil => rfl
  | cons k ks ih =>
    rw [List.filter_cons]
    cases hk : R k with
    | nil => simpa [hk] using ih
    | cons r rs => simp [hk, ih]

theorem perm_of_flatMap_perm (keys listed : List κ) (hnodup : keys.Nodup) (hsub : keys ⊆ listed)
    (hrows : ∀ k ∈ listed, R k ≠ []) (h : (listed.flatMap R).Perm (keys.flatMap R)) :
    listed.Perm keys := by
  have hsplit := List.subperm_append_diff_self_of_count_le
    (List.subperm_ext_iff.mp (List.subperm_of_subset hnodup hsub))
  have hlen := (h.symm.trans (hsplit.flatMap_right R).symm).length_eq
  rw [List.flatMap_append, List.length_append] at hlen
  have hrest : (listed.diff keys).flatMap R = [] := List.eq_nil_of_length_eq_zero (by omega)
  have hdiff : listed.diff keys = [] := by
    refine List.eq_nil_iff_forall_not_mem.mpr ?_
    intro a ha
    exact hrows a (List.diff_subset _ _ ha) (List.flatMap_eq_nil_iff.mp hrest a ha)
  rw [hdiff, List.append_nil] at hsplit
  exact hsplit.symm

/-- A list of keys that misses no row reads every row once, if it has no key with rows twice,
and only then. -/
theorem flatMap_perm_iff (keys listed : List κ) (hnodup : keys.Nodup)
    (hcover : ∀ k ∈ keys, R k ≠ [] → k ∈ listed) (hsub : ∀ k ∈ listed, k ∈ keys) :
    (listed.flatMap R).Perm (keys.flatMap R) ↔ ∀ k, 1 < listed.count k → R k = [] := by
  rw [← flatMap_filter_rows R listed, ← flatMap_filter_rows R keys]
  have hmem : ∀ k, k ∈ listed.filter (fun k => !(R k).isEmpty) ↔
      k ∈ keys.filter fun k => !(R k).isEmpty := by
    intro k
    simp only [List.mem_filter, Bool.not_eq_true', List.isEmpty_eq_false_iff]
    exact ⟨fun h => ⟨hsub k h.1, h.2⟩, fun h => ⟨hcover k h.1 h.2, h.2⟩⟩
  have hkeys := hnodup.filter fun k => !(R k).isEmpty
  have hcount : ∀ k, R k ≠ [] →
      (listed.filter fun k => !(R k).isEmpty).count k = listed.count k := by
    intro k hk
    exact List.count_filter (by simpa using hk)
  constructor
  · intro hperm k hk
    by_contra hne
    have honce := perm_of_flatMap_perm R _ _ hkeys (fun a ha => (hmem a).mpr ha)
      (fun a ha => by simpa using (List.mem_filter.mp ha).2) hperm
    have hone := List.nodup_iff_count_le_one.mp (honce.symm.nodup hkeys) k
    rw [hcount k hne] at hone
    omega
  · intro hone
    have hlisted : (listed.filter fun k => !(R k).isEmpty).Nodup := by
      refine List.nodup_iff_count_le_one.mpr ?_
      intro k
      by_cases hk : R k = []
      · have hno : k ∉ listed.filter fun k => !(R k).isEmpty := by simp [hk]
        rw [List.count_eq_zero_of_not_mem hno]
        exact Nat.zero_le 1
      · rw [hcount k hk]
        exact Nat.le_of_not_lt fun h => hk (hone k h)
    exact ((List.perm_ext_iff_of_nodup hlisted hkeys).mpr hmem).flatMap_right R

end Keyed

/-! ### The time range of a predicate -/

/-- What the conjuncts of a predicate compare with. -/
def bounds : Expr F → List (Expr F)
  | .binOp .and left right => bounds left ++ bounds right
  | .binOp _ _ right => [right]
  | .between _ low high => [low, high]
  | _ => []

theorem startLiteral_mem_bounds (p : Expr F) (n : Int64) (h : startLiteral p = some n) :
    .literal (.int n) ∈ bounds p := by
  fun_induction startLiteral p with
  | case1 left right v hl ih => exact List.mem_append_left _ (ih h)
  | case2 left right hl ih => exact List.mem_append_right _ (ih h)
  | case3 left right he => exact intLiteral_eq right n h ▸ List.mem_singleton_self right
  | case4 left right he => cases h
  | case5 e low high he => exact intLiteral_eq low n h ▸ List.mem_cons_self
  | case6 e low high he => cases h
  | case7 p hand hge hbetween => cases h

theorem extractTimeRange_sound [FloatOps F] (val : Expr F → Option (Datum F)) (ts : UInt64)
    (hrow : RowAt val ts) (p : Expr F)
    (hnonneg : ∀ n, .literal (.int n) ∈ bounds p → 0 ≤ n.toInt) (startNs endNs : UInt64)
    (h : extractTimeRange p = some (startNs, endNs)) (htrue : truth val p = some true) :
    startNs ≤ ts ∧ ts ≤ endNs := by
  refine ⟨?_, extractTimeRange_end val ts hrow p startNs endNs h htrue⟩
  rw [extractTimeRange_start p startNs endNs h, UInt64.le_iff_toNat_le]
  cases hn : startLiteral p with
  | none => exact Nat.zero_le _
  | some n =>
    have hle := startLiteral_le val ts hrow p n hn htrue
    have hvalue := toNat_toUInt64 n (hnonneg n (startLiteral_mem_bounds p n hn))
    simp only [Option.map_some, Option.getD_some]
    omega

/-! ### Scans with SQL's predicates -/

/-- The operands of a predicate on a row: columns have the values of their cells, and integer
literals are integers. -/
structure Valuation (signal : SignalType) (val : List (Cell F) → Expr F → Option (Datum F)) :
    Prop where
  column : ∀ row q name c, cell? (schema signal) row name = some c →
    val row (.column q name) = datum c
  int : ∀ row n, val row (.literal (.int n)) = some (.int n.toInt)

/-- The batches of a table's SSTables: they have the schema of the signal, and the zone maps
cover their timestamps. -/
structure StoredTable (signal : SignalType) (parts : Partitions F) : Prop where
  typed : ∀ e ∈ parts.entries, ∀ f ∈ e.2, ∀ b, .ok b ∈ f.batches → b.schema = schema signal
  zoned : ∀ e ∈ parts.entries, ∀ f ∈ e.2, ∀ b, .ok b ∈ f.batches → ∀ row ∈ b.rows, ∀ ts,
    cell? (schema signal) row "timestamp_ns" = some ⟨.uint64, .valid ts⟩ →
      f.zoneMap.minTimestampNs ≤ ts ∧ ts ≤ f.zoneMap.maxTimestampNs

/-- Each partition has the rows of its own time bucket. -/
def Bucketed (signal : SignalType) (parts : Partitions F) : Prop :=
  ∃ route : UInt64 → UInt64, ∀ e ∈ parts.entries, ∀ f ∈ e.2, ∀ b, .ok b ∈ f.batches →
    ∀ row ∈ b.rows, ∀ ts,
      cell? (schema signal) row "timestamp_ns" = some ⟨.uint64, .valid ts⟩ → route ts = e.1

theorem timestamp_cell (signal : SignalType) (hsignal : signal = .log ∨ signal = .metric)
    (row : List (Cell F)) (h : RowOf (schema signal) row) :
    ∃ ts, cell? (schema signal) row "timestamp_ns" = some ⟨.uint64, .valid ts⟩ := by
  have hfields : ∃ rest, schema signal = ⟨"timestamp_ns", .uint64, false⟩ :: rest := by
    cases hsignal with
    | inl hlog => exact ⟨_, by rw [hlog]; rfl⟩
    | inr hmetric => exact ⟨_, by rw [hmetric]; rfl⟩
  obtain ⟨rest, hrest⟩ := hfields
  rw [hrest] at h ⊢
  cases row with
  | nil => cases h.typed
  | cons c cs =>
    obtain ⟨t, x⟩ := c
    have ht : t = .uint64 := (List.cons.inj h.typed).1
    subst ht
    have hnull := h.nonNull _ List.mem_cons_self rfl
    cases x with
    | valid ts => exact ⟨ts, rfl⟩
    | null v => cases hnull

section Scan
variable [FloatOps F] (val : List (Cell F) → Expr F → Option (Datum F))

def sqlSelected (predicate : Option (Expr F)) (b : RecordBatch F) : Option (RecordBatch F) :=
  match predicate with
  | some p =>
    (filterRecordBatch b
      (b.rows.map fun row => .valid (truth (val row) p == some true))).toOption.bind nonEmpty
  | none => some b

def sqlLoadAll (predicate : Option (Expr F)) :
    List (Except String (RecordBatch F)) → Res (List (RecordBatch F))
  | [] => .ok []
  | r :: rs => do
    let batch ← readBatch r
    let rest ← sqlLoadAll predicate rs
    pure ((sqlSelected val predicate batch).toList ++ rest)

/-- `load_batches`, with the predicate evaluated as SQL says. -/
def sqlScan (env : Env F) (op : ScanOp F) : Res (List (RecordBatch F)) := do
  let signal ← signalForTable op.table
  let files := (env.storage signal).sstablePaths op.partitionFilter
  let all ← sqlLoadAll val op.predicate (files.flatMap SSTableFile.batches)
  pure (retainLimit op.limit all)

def matching (p : Expr F) (f : SSTableFile F) : List (List (Cell F)) :=
  (f.batches.filterMap Except.toOption).flatMap fun b =>
    b.rows.filter fun row => truth (val row) p == some true

def partitionRows (p : Expr F) (parts : Partitions F) (key : UInt64) : List (List (Cell F)) :=
  (parts.get key).flatMap (matching val p)

omit [FloatOps F] in
theorem keep_valid {α : Type} (test : α → Bool) (as : List α) :
    keep (as.map fun a => .valid (test a)) as = as.filter test := by
  induction as with
  | nil => rfl
  | cons a as ih =>
    rw [List.map_cons, keep, ih, List.filter_cons]
    rfl

theorem sqlSelected_rows (p : Expr F) (b : RecordBatch F) :
    optRows (sqlSelected val (some p) b) =
        b.rows.filter (fun row => truth (val row) p == some true) ∧
      ∀ c ∈ sqlSelected val (some p) b, 0 < c.numRows := by
  let mask : List (Slot Bool) := b.rows.map fun row => .valid (truth (val row) p == some true)
  have hlen : mask.length = b.numRows := by rw [List.length_map, length_rows]
  have hok : ∃ c, filterRecordBatch b mask = .ok c :=
    ⟨_, dif_pos fun c hc => (hlen.trans (b.sized c hc).symm).le⟩
  obtain ⟨c, hc⟩ := hok
  have hrows : c.rows = b.rows.filter fun row => truth (val row) p == some true :=
    (rows_filter b c mask hlen.le hc).trans (keep_valid _ _)
  have hsel : sqlSelected val (some p) b = nonEmpty c := by
    change (filterRecordBatch b mask).toOption.bind nonEmpty = nonEmpty c
    rw [hc]
    rfl
  rw [hsel, optRows_nonEmpty]
  refine ⟨hrows, ?_⟩
  intro d hd
  unfold nonEmpty at hd
  split at hd
  next hpos =>
    cases hd
    exact hpos
  · cases hd

theorem sqlLoadAll_readable (predicate : Option (Expr F))
    (rs : List (Except String (RecordBatch F))) (h : ∀ r ∈ rs, ∃ b, r = .ok b) :
    sqlLoadAll val predicate rs =
      .ok ((rs.filterMap Except.toOption).filterMap (sqlSelected val predicate)) := by
  induction rs with
  | nil => rfl
  | cons r rs ih =>
    obtain ⟨b, rfl⟩ := h r List.mem_cons_self
    rw [sqlLoadAll, ih fun r hr => h r (List.mem_cons_of_mem _ hr)]
    change Except.ok ((sqlSelected val predicate b).toList ++ _) =
      Except.ok ((b :: rs.filterMap Except.toOption).filterMap (sqlSelected val predicate))
    cases hs : sqlSelected val predicate b with
    | none => rw [List.filterMap_cons_none hs]; rfl
    | some c => rw [List.filterMap_cons_some hs]; rfl

theorem readable_of_sqlLoadAll (predicate : Option (Expr F))
    (rs : List (Except String (RecordBatch F))) (out : List (RecordBatch F))
    (h : sqlLoadAll val predicate rs = .ok out) : ∀ r ∈ rs, ∃ b, r = .ok b := by
  induction rs generalizing out with
  | nil => exact fun r hr => absurd hr List.not_mem_nil
  | cons r rs ih =>
    cases r with
    | error msg => cases h
    | ok b =>
      rw [sqlLoadAll, readBatch, ok_bind] at h
      obtain ⟨rest, hrest, _⟩ := of_bind_ok _ _ _ h
      intro r hr
      cases List.mem_cons.mp hr with
      | inl he => exact ⟨b, he⟩
      | inr hm => exact ih rest hrest r hm

def readKeys (parts : Partitions F) (partitionFilter : List UInt64) : List UInt64 :=
  if partitionFilter.isEmpty then parts.entries.map Prod.fst else partitionFilter

/-- What a scan with this predicate loads of a partition. -/
def partitionBatches (p : Expr F) (parts : Partitions F) (key : UInt64) : List (RecordBatch F) :=
  (((parts.get key).flatMap SSTableFile.batches).filterMap Except.toOption).filterMap
    (sqlSelected val (some p))

theorem resultRows_partitionBatches (p : Expr F) (parts : Partitions F) (key : UInt64) :
    resultRows (partitionBatches val p parts key) = partitionRows val p parts key := by
  have hrows : (fun b => optRows (sqlSelected val (some p) b)) = fun b =>
      b.rows.filter fun row => truth (val row) p == some true := by
    funext b
    exact (sqlSelected_rows val p b).1
  rw [partitionBatches, resultRows_filterMap, hrows, List.filterMap_flatMap, List.flatMap_assoc]
  rfl

theorem rows_ne_nil_of_partitionBatches (p : Expr F) (parts : Partitions F) (key : UInt64) :
    ∀ b ∈ partitionBatches val p parts key, b.rows ≠ [] := by
  intro b hb
  obtain ⟨c, _, hc⟩ := List.mem_filterMap.mp hb
  have hpos := (sqlSelected_rows val p c).2 b hc
  exact List.ne_nil_of_length_pos (by rwa [length_rows])

def holding (p : Expr F) (parts : Partitions F) (keys : List UInt64) : List UInt64 :=
  keys.filter fun key => !(partitionBatches val p parts key).isEmpty

end Scan

/-! ### The partitions a scan is pruned to -/

def TableStats.of (key : UInt64) (zoneMap : Tables.ZoneMap) : TableStats :=
  ⟨key, zoneMap.minTimestampNs, zoneMap.maxTimestampNs, zoneMap.rowCount⟩

def Catalog.updateStats (catalog : Catalog) (table : String)
    (zoneMaps : List (UInt64 × Tables.ZoneMap)) : Catalog where
  stats t :=
    if t = table then (catalog.stats t).map fun _ => zoneMaps.map fun z => TableStats.of z.1 z.2
    else catalog.stats t

def statsOf (parts : Partitions F) : List TableStats :=
  parts.entries.flatMap fun e => e.2.map fun f => TableStats.of e.1 f.zoneMap

/-- The catalog has the statistics of these SSTables, in some order. -/
def Catalog.Describes (catalog : Catalog) (table : String) (parts : Partitions F) : Prop :=
  ∃ stats, catalog.stats table = some stats ∧ stats.Perm (statsOf parts)

theorem describes_updateStats (catalog : Catalog) (table : String) (parts : Partitions F)
    (zoneMaps : List (UInt64 × Tables.ZoneMap))
    (hall : zoneMaps.Perm (parts.entries.flatMap fun e => e.2.map fun f => (e.1, f.zoneMap)))
    (hknown : (catalog.stats table).isSome = true) :
    (catalog.updateStats table zoneMaps).Describes table parts := by
  obtain ⟨old, hold⟩ := Option.isSome_iff_exists.mp hknown
  refine ⟨zoneMaps.map fun z => TableStats.of z.1 z.2, ?_, ?_⟩
  · simp [Catalog.updateStats, hold]
  · have hmap := hall.map fun z => TableStats.of z.1 z.2
    simp only [List.map_flatMap, List.map_map] at hmap
    exact hmap

theorem entry_of_get (parts : Partitions F) (key : UInt64) (f : SSTableFile F)
    (h : f ∈ parts.get key) : ∃ e ∈ parts.entries, e.1 = key ∧ f ∈ e.2 := by
  unfold Partitions.get at h
  cases hfind : parts.entries.find? fun e => e.1 = key with
  | none =>
    rw [hfind] at h
    cases h
  | some e =>
    rw [hfind] at h
    exact ⟨e, List.mem_of_find?_eq_some hfind, by simpa using List.find?_some hfind, h⟩

theorem mem_overlapping (catalog : Catalog) (table : String) (parts : Partitions F)
    (h : catalog.Describes table parts) (startNs endNs key : UInt64) :
    key ∈ catalog.overlappingPartitions table startNs endNs ↔
      ∃ e ∈ parts.entries, e.1 = key ∧ ∃ f ∈ e.2, f.zoneMap.minTimestampNs ≤ endNs ∧
        startNs ≤ f.zoneMap.maxTimestampNs := by
  obtain ⟨stats, hstats, hperm⟩ := h
  unfold Catalog.overlappingPartitions
  rw [hstats]
  constructor
  · intro hkey
    obtain ⟨s, hs, rfl⟩ := List.mem_map.mp hkey
    obtain ⟨hs, hover⟩ := List.mem_filter.mp hs
    obtain ⟨e, he, hs⟩ := List.mem_flatMap.mp (hperm.mem_iff.mp hs)
    obtain ⟨f, hf, rfl⟩ := List.mem_map.mp hs
    obtain ⟨hmin, hmax⟩ := Bool.and_eq_true_iff.mp hover
    exact ⟨e, he, rfl, f, hf, of_decide_eq_true hmin, of_decide_eq_true hmax⟩
  · intro ⟨e, he, hkey, f, hf, hover⟩
    refine List.mem_map.mpr ⟨_, List.mem_filter.mpr ⟨hperm.mem_iff.mpr (List.mem_flatMap.mpr
      ⟨e, he, List.mem_map_of_mem hf⟩), ?_⟩, hkey⟩
    exact Bool.and_eq_true_iff.mpr ⟨decide_eq_true hover.1, decide_eq_true hover.2⟩

section Prune
variable [FloatOps F] (val : List (Cell F) → Expr F → Option (Datum F))

theorem stored_of_partitionRows (p : Expr F) (parts : Partitions F) (key : UInt64)
    (row : List (Cell F)) (h : row ∈ partitionRows val p parts key) :
    ∃ e ∈ parts.entries, e.1 = key ∧ ∃ f ∈ e.2, ∃ b, .ok b ∈ f.batches ∧ row ∈ b.rows ∧
      truth (val row) p = some true := by
  obtain ⟨f, hf, hrow⟩ := List.mem_flatMap.mp h
  obtain ⟨b, hb, hrow⟩ := List.mem_flatMap.mp hrow
  obtain ⟨r, hr, hrb⟩ := List.mem_filterMap.mp hb
  obtain ⟨hrow, htrue⟩ := List.mem_filter.mp hrow
  have hok : .ok b ∈ f.batches := by
    cases r with
    | error msg => cases hrb
    | ok c =>
      cases hrb
      exact hr
  obtain ⟨e, he, hkey, hfe⟩ := entry_of_get parts key f hf
  exact ⟨e, he, hkey, f, hfe, b, hok, hrow, eq_of_beq htrue⟩

section Stored
variable (signal : SignalType) (hsignal : signal = .log ∨ signal = .metric) (parts : Partitions F)
  (hstored : StoredTable signal parts)

include hsignal hstored

omit [FloatOps F] in
theorem timestamp_of_stored (e : UInt64 × List (SSTableFile F)) (he : e ∈ parts.entries)
    (f : SSTableFile F) (hf : f ∈ e.2) (b : RecordBatch F) (hb : .ok b ∈ f.batches)
    (row : List (Cell F)) (hrow : row ∈ b.rows) :
    ∃ ts, cell? (schema signal) row "timestamp_ns" = some ⟨.uint64, .valid ts⟩ := by
  have hrowOf : RowOf (schema signal) row := hstored.typed e he f hf b hb ▸ rowOf_rows b row hrow
  exact timestamp_cell signal hsignal row hrowOf

theorem overlapping_of_rows (catalog : Catalog) (table : String)
    (hcatalog : catalog.Describes table parts) (hval : Valuation signal val) (p : Expr F)
    (hnonneg : ∀ n, .literal (.int n) ∈ bounds p → 0 ≤ n.toInt) (startNs endNs : UInt64)
    (hrange : extractTimeRange p = some (startNs, endNs)) (key : UInt64)
    (hrows : partitionRows val p parts key ≠ []) :
    key ∈ catalog.overlappingPartitions table startNs endNs := by
  obtain ⟨row, hrow⟩ := List.exists_mem_of_ne_nil _ hrows
  obtain ⟨e, he, hkey, f, hf, b, hb, hrow, htrue⟩ :=
    stored_of_partitionRows val p parts key row hrow
  obtain ⟨ts, hts⟩ := timestamp_of_stored signal hsignal parts hstored e he f hf b hb row hrow
  obtain ⟨hmin, hmax⟩ := hstored.zoned e he f hf b hb row hrow ts hts
  have hat : RowAt (val row) ts := ⟨fun q => (hval.column row q _ _ hts).trans rfl, hval.int row⟩
  obtain ⟨hstart, hend⟩ := extractTimeRange_sound (val row) ts hat p hnonneg startNs endNs hrange
    htrue
  exact (mem_overlapping catalog table parts hcatalog startNs endNs key).mpr
    ⟨e, he, hkey, f, hf, UInt64.le_trans hmin hend, UInt64.le_trans hstart hmax⟩

theorem rows_apart (hbucket : Bucketed signal parts) (p : Expr F) (key key' : UInt64)
    (hne : key ≠ key') (row : List (Cell F)) (h : row ∈ partitionRows val p parts key) :
    row ∉ partitionRows val p parts key' := by
  intro h'
  obtain ⟨route, hroute⟩ := hbucket
  obtain ⟨e, he, hkey, f, hf, b, hb, hrow, _⟩ := stored_of_partitionRows val p parts key row h
  obtain ⟨e', he', hkey', f', hf', b', hb', hrow', _⟩ :=
    stored_of_partitionRows val p parts key' row h'
  obtain ⟨ts, hts⟩ := timestamp_of_stored signal hsignal parts hstored e he f hf b hb row hrow
  have hfirst := hroute e he f hf b hb row hrow ts hts
  have hsecond := hroute e' he' f' hf' b' hb' row hrow' ts hts
  exact hne (hkey.symm.trans (hfirst.symm.trans (hsecond.trans hkey')))

end Stored

omit [FloatOps F] in
theorem sstablePaths_subset (parts : Partitions F) (partitionFilter : List UInt64)
    (f : SSTableFile F) (h : f ∈ parts.sstablePaths partitionFilter) :
    f ∈ parts.sstablePaths [] := by
  obtain ⟨key, _, hf⟩ := List.mem_flatMap.mp h
  obtain ⟨e, he, rfl, _⟩ := entry_of_get parts key f hf
  exact List.mem_flatMap.mpr ⟨e.1, List.mem_map_of_mem he, hf⟩

/-- What a scan with this predicate and partition filter loads. -/
def loaded (p : Expr F) (parts : Partitions F) (partitionFilter : List UInt64) :
    List (RecordBatch F) :=
  (((parts.sstablePaths partitionFilter).flatMap SSTableFile.batches).filterMap
    Except.toOption).filterMap (sqlSelected val (some p))

theorem loaded_eq (p : Expr F) (parts : Partitions F) (partitionFilter : List UInt64) :
    loaded val p parts partitionFilter =
      (readKeys parts partitionFilter).flatMap (partitionBatches val p parts) := by
  have hpaths : parts.sstablePaths partitionFilter =
      (readKeys parts partitionFilter).flatMap parts.get := rfl
  rw [loaded, hpaths, List.flatMap_assoc, List.filterMap_flatMap, List.filterMap_flatMap]
  rfl

theorem loaded_eq_holding (p : Expr F) (parts : Partitions F) (partitionFilter : List UInt64) :
    loaded val p parts partitionFilter =
      (holding val p parts (readKeys parts partitionFilter)).flatMap
        (partitionBatches val p parts) := by
  rw [loaded_eq]
  exact (flatMap_filter_rows _ _).symm

theorem rows_loaded (p : Expr F) (parts : Partitions F) (partitionFilter : List UInt64) :
    resultRows (loaded val p parts partitionFilter) =
      (readKeys parts partitionFilter).flatMap (partitionRows val p parts) := by
  rw [loaded_eq, resultRows, List.flatMap_assoc]
  congr 1
  funext key
  exact resultRows_partitionBatches val p parts key

theorem sqlScan_readable (env : Env F) (op : ScanOp F) (signal : SignalType) (p : Expr F)
    (hsignal : signalForTable op.table = .ok signal) (hp : op.predicate = some p)
    (hread : ∀ r ∈ ((env.storage signal).sstablePaths []).flatMap SSTableFile.batches,
      ∃ b, r = .ok b) :
    sqlScan val env op =
      .ok (retainLimit op.limit (loaded val p (env.storage signal) op.partitionFilter)) := by
  have hsome : ∀ r ∈ ((env.storage signal).sstablePaths op.partitionFilter).flatMap
      SSTableFile.batches, ∃ b, r = .ok b := by
    intro r hr
    obtain ⟨f, hf, hr⟩ := List.mem_flatMap.mp hr
    exact hread r (List.mem_flatMap.mpr ⟨f, sstablePaths_subset _ _ f hf, hr⟩)
  unfold sqlScan
  rw [hsignal, ok_bind, hp]
  change sqlLoadAll val (some p) _ >>= _ = _
  rw [sqlLoadAll_readable val (some p) _ hsome]
  rfl

theorem readable_of_sqlScan (env : Env F) (op : ScanOp F) (signal : SignalType)
    (hsignal : signalForTable op.table = .ok signal) (hfilter : op.partitionFilter = [])
    (out : List (RecordBatch F)) (h : sqlScan val env op = .ok out) :
    ∀ r ∈ ((env.storage signal).sstablePaths []).flatMap SSTableFile.batches, ∃ b, r = .ok b := by
  unfold sqlScan at h
  rw [hsignal, ok_bind, hfilter] at h
  obtain ⟨all, hload, _⟩ := of_bind_ok _ _ _ h
  exact readable_of_sqlLoadAll val op.predicate _ all hload

/-- The pruned scan returns the rows of the scan, each as often. -/
def PruneLaw (env : Env F) (catalog : Catalog) (op : ScanOp F) : Prop :=
  ∀ out, sqlScan val env op = .ok out →
    ∃ out', sqlScan val env (pruneScan catalog op) = .ok out' ∧
      (resultRows out').Perm (resultRows out)

/-- Without a limit, a partition that is listed more than once has no row on which the predicate
is true. With one, the partitions with such rows that are reached before it are those of the
scan, each once, and the same one is reached last or all of them are read in full. -/
def PruneSafe (parts : Partitions F) (catalog : Catalog) (op : ScanOp F) : Prop :=
  ∀ p startNs endNs, op.predicate = some p → extractTimeRange p = some (startNs, endNs) →
    let listed := catalog.overlappingPartitions op.table startNs endNs
    match op.limit with
    | none => ∀ key, 1 < listed.count key → partitionRows val p parts key = []
    | some n => SameReach RecordBatch.numRows (partitionBatches val p parts) n.toNat
        (holding val p parts (readKeys parts listed)) (holding val p parts (readKeys parts []))

theorem rows_pruned (catalog : Catalog) (table : String) (signal : SignalType)
    (hsignal : signal = .log ∨ signal = .metric) (parts : Partitions F)
    (hcatalog : catalog.Describes table parts) (hstored : StoredTable signal parts)
    (hval : Valuation signal val) (p : Expr F)
    (hnonneg : ∀ n, .literal (.int n) ∈ bounds p → 0 ≤ n.toInt) (startNs endNs : UInt64)
    (hrange : extractTimeRange p = some (startNs, endNs)) :
    (resultRows (loaded val p parts (catalog.overlappingPartitions table startNs endNs))).Perm
        (resultRows (loaded val p parts [])) ↔
      ∀ key, 1 < (catalog.overlappingPartitions table startNs endNs).count key →
        partitionRows val p parts key = [] := by
  rw [rows_loaded, rows_loaded]
  cases hlisted : catalog.overlappingPartitions table startNs endNs with
  | nil =>
    -- an empty list means every partition
    refine ⟨fun _ key hkey => ?_, fun _ => List.Perm.refl _⟩
    cases hkey
  | cons k ks =>
    rw [← hlisted]
    have hread : readKeys parts (catalog.overlappingPartitions table startNs endNs) =
        catalog.overlappingPartitions table startNs endNs := by rw [hlisted]; rfl
    rw [hread]
    refine flatMap_perm_iff (partitionRows val p parts) (parts.entries.map Prod.fst) _ parts.nodup
      ?_ ?_
    · intro key _ hrows
      exact overlapping_of_rows val signal hsignal parts hstored catalog table hcatalog hval p
        hnonneg startNs endNs hrange key hrows
    · intro key hkey
      obtain ⟨e, he, rfl, _⟩ :=
        (mem_overlapping catalog table parts hcatalog startNs endNs key).mp hkey
      exact List.mem_map_of_mem he

section Limit
variable (p : Expr F) (parts : Partitions F)

theorem rows_of_sameReach (n : Nat) (listed others : List UInt64)
    (h : SameReach RecordBatch.numRows (partitionBatches val p parts) n
      (holding val p parts (readKeys parts listed)) (holding val p parts (readKeys parts others))) :
    (resultRows (retain n 0 (loaded val p parts listed))).Perm
      (resultRows (retain n 0 (loaded val p parts others))) := by
  rw [retain_eq_cut, retain_eq_cut, loaded_eq_holding, loaded_eq_holding]
  exact h.perm.flatMap_right RecordBatch.rows

theorem sameReach_of_retain (signal : SignalType) (hsignal : signal = .log ∨ signal = .metric)
    (hstored : StoredTable signal parts) (hbucket : Bucketed signal parts) (n : Nat)
    (listed : List UInt64)
    (h : (resultRows (retain n 0 (loaded val p parts listed))).Perm
      (resultRows (retain n 0 (loaded val p parts [])))) :
    SameReach RecordBatch.numRows (partitionBatches val p parts) n
      (holding val p parts (readKeys parts listed)) (holding val p parts (readKeys parts [])) := by
  have hsize : rowCount RecordBatch.rows = RecordBatch.numRows (F := F) := funext length_rows
  rw [retain_eq_cut, retain_eq_cut, loaded_eq_holding, loaded_eq_holding, ← hsize] at h
  rw [← hsize]
  have hown : ∀ key, keyRows (partitionBatches val p parts) RecordBatch.rows key =
      partitionRows val p parts key := resultRows_partitionBatches val p parts
  refine sameReach_of_rows (partitionBatches val p parts) RecordBatch.rows n ?_
    (rows_ne_nil_of_partitionBatches val p parts) _ _ ?_ (parts.nodup.filter _) h
  · intro key key' hne row hrow
    rw [hown] at hrow ⊢
    exact rows_apart val signal hsignal parts hstored hbucket p key key' hne row hrow
  · intro key hkey
    cases List.mem_append.mp hkey with
    | inl hm => simpa using (List.mem_filter.mp hm).2
    | inr hm => simpa using (List.mem_filter.mp hm).2

end Limit

omit [FloatOps F] in
theorem pruneScan_none (catalog : Catalog) (op : ScanOp F)
    (h : op.predicate.bind extractTimeRange = none) : pruneScan catalog op = op := by
  unfold pruneScan
  rw [h]

omit [FloatOps F] in
theorem pruneScan_some (catalog : Catalog) (op : ScanOp F) (p : Expr F) (startNs endNs : UInt64)
    (hp : op.predicate = some p) (h : extractTimeRange p = some (startNs, endNs)) :
    pruneScan catalog op =
      { op with partitionFilter := catalog.overlappingPartitions op.table startNs endNs } := by
  unfold pruneScan
  rw [hp, Option.bind_some, h]

section Table
variable (env : Env F) (catalog : Catalog) (op : ScanOp F) (signal : SignalType)
  (htable : op.table = "logs" ∧ signal = .log ∨ op.table = "metrics" ∧ signal = .metric)
  (hunpruned : op.partitionFilter = [])
  (hcatalog : catalog.Describes op.table (env.storage signal))
  (hstored : StoredTable signal (env.storage signal)) (hval : Valuation signal val)
  (hnonneg : ∀ p, op.predicate = some p → ∀ n, .literal (.int n) ∈ bounds p → 0 ≤ n.toInt)

omit [FloatOps F] in
include htable in
theorem signalForTable_eq : signalForTable op.table = .ok signal := by
  obtain ⟨ht, rfl⟩ | ⟨ht, rfl⟩ := htable
  · rw [ht]
    rfl
  · rw [ht]
    rfl

include htable hunpruned

theorem sqlScan_both (p : Expr F) (startNs endNs : UInt64) (hp : op.predicate = some p)
    (hrange : extractTimeRange p = some (startNs, endNs)) (out : List (RecordBatch F))
    (hout : sqlScan val env op = .ok out) :
    out = retainLimit op.limit (loaded val p (env.storage signal) []) ∧
      sqlScan val env (pruneScan catalog op) = .ok (retainLimit op.limit (loaded val p
        (env.storage signal) (catalog.overlappingPartitions op.table startNs endNs))) := by
  have hlookup := signalForTable_eq op signal htable
  have hread := readable_of_sqlScan val env op signal hlookup hunpruned out hout
  have hscan := sqlScan_readable val env op signal p hlookup hp hread
  rw [hout, hunpruned] at hscan
  rw [pruneScan_some catalog op p startNs endNs hp hrange]
  exact ⟨Except.ok.inj hscan, sqlScan_readable val env _ signal p hlookup hp hread⟩

include hcatalog hstored hval hnonneg

theorem pruneLaw_of_safe (hsafe : PruneSafe val (env.storage signal) catalog op) :
    PruneLaw val env catalog op := by
  intro out hout
  cases hbind : op.predicate.bind extractTimeRange with
  | none =>
    rw [pruneScan_none catalog op hbind]
    exact ⟨out, hout, List.Perm.refl _⟩
  | some range =>
    obtain ⟨startNs, endNs⟩ := range
    obtain ⟨p, hp, hrange⟩ := Option.bind_eq_some_iff.mp hbind
    obtain ⟨rfl, hpruned⟩ := sqlScan_both val env catalog op signal htable hunpruned p startNs
      endNs hp hrange out hout
    refine ⟨_, hpruned, ?_⟩
    have hcond := hsafe p startNs endNs hp hrange
    cases hlimit : op.limit with
    | none =>
      simp only [hlimit] at hcond
      exact (rows_pruned val catalog op.table signal (htable.imp And.right And.right)
        (env.storage signal) hcatalog hstored hval p (hnonneg p hp) startNs endNs hrange).mpr hcond
    | some n =>
      simp only [hlimit] at hcond
      exact rows_of_sameReach val p (env.storage signal) n.toNat _ _ hcond

theorem safe_of_pruneLaw (hexact : op.limit = none ∨ Bucketed signal (env.storage signal))
    (out : List (RecordBatch F)) (hout : sqlScan val env op = .ok out)
    (hlaw : PruneLaw val env catalog op) : PruneSafe val (env.storage signal) catalog op := by
  intro p startNs endNs hp hrange
  obtain ⟨rfl, hpruned⟩ := sqlScan_both val env catalog op signal htable hunpruned p startNs endNs
    hp hrange out hout
  obtain ⟨out', hout', hperm⟩ := hlaw _ hout
  rw [hpruned] at hout'
  cases hout'
  have hsignal := htable.imp And.right And.right
  cases hlimit : op.limit with
  | none =>
    rw [hlimit] at hperm
    exact (rows_pruned val catalog op.table signal hsignal (env.storage signal) hcatalog hstored
      hval p (hnonneg p hp) startNs endNs hrange).mp hperm
  | some n =>
    rw [hlimit] at hperm hexact
    exact sameReach_of_retain val p (env.storage signal) signal hsignal hstored
      (hexact.resolve_left (Option.some_ne_none n)) n.toNat _ hperm

end Table

/-- Pruning neither loses nor repeats rows where no partition with rows to return is listed
twice, up to the limit of the scan, and where the partitions are time buckets or there is no
limit in no other case. -/
theorem prune_exact (env : Env F) (catalog : Catalog) (op : ScanOp F) (signal : SignalType)
    (htable : op.table = "logs" ∧ signal = .log ∨ op.table = "metrics" ∧ signal = .metric)
    (hunpruned : op.partitionFilter = [])
    (hcatalog : catalog.Describes op.table (env.storage signal))
    (hstored : StoredTable signal (env.storage signal)) (hval : Valuation signal val)
    (hnonneg : ∀ p, op.predicate = some p → ∀ n, .literal (.int n) ∈ bounds p → 0 ≤ n.toInt) :
    (PruneSafe val (env.storage signal) catalog op → PruneLaw val env catalog op) ∧
      (op.limit = none ∨ Bucketed signal (env.storage signal) →
        (∃ out, sqlScan val env op = .ok out) →
          (PruneLaw val env catalog op ↔ PruneSafe val (env.storage signal) catalog op)) := by
  have hof := pruneLaw_of_safe val env catalog op signal htable hunpruned hcatalog hstored hval
    hnonneg
  refine ⟨hof, ?_⟩
  intro hexact hexec
  obtain ⟨out, hout⟩ := hexec
  exact ⟨safe_of_pruneLaw val env catalog op signal htable hunpruned hcatalog hstored hval hnonneg
    hexact out hout, hof⟩

end Prune

/-! ### Stored logs -/

def rowValue (clock : Int64) (signal : SignalType) (row : List (Cell Exact)) (e : Expr Exact) :
    Option (Datum Exact) :=
  match rowExpr clock (schema signal) row e with
  | .ok c => datum c
  | .error _ => none

theorem valuation_rowValue (clock : Int64) (signal : SignalType) :
    Valuation signal (rowValue clock signal) where
  column := by
    intro row q name c hc
    rw [rowValue, rowExpr, hc]
  int := by
    intro row n
    rw [rowValue, rowExpr]
    rfl

theorem storedTable_logs (parts : Partitions Exact)
    (h : ∀ e ∈ parts.entries, ∀ f ∈ e.2, ∀ b, .ok b ∈ f.batches → ∃ ts body,
      b = logBatch ts body ∧ f.zoneMap.minTimestampNs ≤ ts ∧ ts ≤ f.zoneMap.maxTimestampNs) :
    StoredTable .log parts where
  typed := by
    intro e he f hf b hb
    obtain ⟨ts, body, rfl, _⟩ := h e he f hf b hb
    rfl
  zoned := by
    intro e he f hf b hb row hrow ts hts
    obtain ⟨ts', body, rfl, hzone⟩ := h e he f hf b hb
    have hrows : (logBatch ts' body).rows = [logCells ts' body] := rows_ofRow logSchema _ _
    rw [hrows] at hrow
    cases List.mem_singleton.mp hrow
    have hcell : cell? logSchema (logCells ts' body) "timestamp_ns" =
        some ⟨.uint64, .valid ts'⟩ := rfl
    cases hcell.symm.trans hts
    exact hzone

/-- `timestamp_ns >= 3` on the logs. -/
def sinceThree : ScanOp Exact :=
  ⟨"logs", some (.binOp .gtEq (.column none "timestamp_ns") (.literal (.int 3))), none, [], none⟩

def logsCatalog (key : UInt64) (files : List (SSTableFile Exact)) : Catalog :=
  Catalog.new.updateStats "logs" (files.map fun f => (key, f.zoneMap))

/-- Two partitions of logs: one SSTable with a record in each of two batches, and one with one
record. -/
def twoPartitions : Env Exact where
  clock := 0
  storage signal :=
    if signal = .log then
      ⟨[(1, [⟨⟨5, 6, 2⟩, [.ok (logBatch 5 "x"), .ok (logBatch 6 "y")]⟩]), (2, [logFile 9 "z"])],
        by decide⟩
    else ⟨[], List.nodup_nil⟩
  lexsort _ := .ok []

theorem storedTable_twoPartitions : StoredTable .log (twoPartitions.storage .log) := by
  refine storedTable_logs _ ?_
  intro e he f hf b hb
  obtain rfl | rfl : e = _ ∨ e = _ := by simpa [twoPartitions] using he
  · cases List.mem_singleton.mp hf
    obtain rfl | rfl : b = _ ∨ b = _ := by simpa using hb
    · exact ⟨5, "x", rfl, by decide⟩
    · exact ⟨6, "y", rfl, by decide⟩
  · cases List.mem_singleton.mp hf
    cases List.mem_singleton.mp hb
    exact ⟨9, "z", rfl, by decide⟩

/-- Each partition has one SSTable, and the limit cuts the first one short: both scans return its
first record. -/
theorem prune_cut_short :
    let catalog := Catalog.new.updateStats "logs" [(1, ⟨5, 6, 2⟩), (2, ⟨9, 9, 1⟩)]
    PruneLaw (rowValue 0 .log) twoPartitions catalog { sinceThree with limit := some 1 } := by
  intro catalog
  refine (prune_exact (rowValue 0 .log) twoPartitions catalog { sinceThree with limit := some 1 }
    .log (Or.inl ⟨rfl, rfl⟩) rfl (describes_updateStats _ _ _ _ (List.Perm.refl _) rfl)
    storedTable_twoPartitions (valuation_rowValue 0 .log) ?_).1 ?_
  · intro p hp n hn
    cases hp
    cases List.mem_singleton.mp hn
    decide
  · intro p startNs endNs hp hrange
    cases hp
    cases hrange
    -- both keys are listed once, in the order of the partitions
    exact ⟨List.Perm.refl _, Or.inl rfl⟩

/-- Two SSTables in the partition: the key is listed twice, and each record is returned twice. -/
theorem prune_repeats_rows :
    let files := [logFile 5 "x", logFile 6 "y"]
    (sqlScan (rowValue 0 .log) (logsEnv 1 files) sinceThree).map resultRows =
        .ok [logCells 5 "x", logCells 6 "y"] ∧
      (sqlScan (rowValue 0 .log) (logsEnv 1 files)
          (pruneScan (logsCatalog 1 files) sinceThree)).map resultRows =
        .ok [logCells 5 "x", logCells 6 "y", logCells 5 "x", logCells 6 "y"] ∧
      ¬ PruneLaw (rowValue 0 .log) (logsEnv 1 files) (logsCatalog 1 files) sinceThree := by
  intro files
  have hall : (sqlScan (rowValue 0 .log) (logsEnv 1 files) sinceThree).map resultRows =
      .ok [logCells 5 "x", logCells 6 "y"] := rfl
  have hpruned : (sqlScan (rowValue 0 .log) (logsEnv 1 files)
      (pruneScan (logsCatalog 1 files) sinceThree)).map resultRows =
        .ok [logCells 5 "x", logCells 6 "y", logCells 5 "x", logCells 6 "y"] := rfl
  refine ⟨hall, hpruned, ?_⟩
  intro hlaw
  cases hout : sqlScan (rowValue 0 .log) (logsEnv 1 files) sinceThree with
  | error s =>
    rw [hout] at hall
    cases hall
  | ok out =>
    obtain ⟨out', hout', hperm⟩ := hlaw out hout
    rw [hout] at hall
    rw [hout'] at hpruned
    have hlen := hperm.length_eq
    rw [Except.ok.inj hall, Except.ok.inj hpruned] at hlen
    cases hlen

end InfraLens.Query
