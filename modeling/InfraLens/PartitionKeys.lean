import InfraLens.Engine
import InfraLens.LibText

/-! Partition keys and directory names (partition.rs, and `bucket_ns` in engine.rs) with every
operation checked: for which configured widths each timestamp has one partition and each
partition one directory. -/
namespace InfraLens.Storage

/-- What stops a checked operation. -/
inductive ArithFault where
  | overflow
  | divideByZero
  deriving DecidableEq

def checkedMul (a b : UInt64) : Except ArithFault UInt64 :=
  if a.toNat * b.toNat < 18446744073709551616 then .ok (a * b) else .error .overflow

/-- `partition_hours * 3_600 * 1_000_000_000`. -/
def bucketNs (partitionHours : UInt64) : Except ArithFault UInt64 := do
  let secs ← checkedMul partitionHours 3600
  checkedMul secs 1000000000

/-- `PartitionKey::for_timestamp`; its subtraction is of a remainder and cannot go below zero. -/
def partitionKey (timestampNs bucketNs : UInt64) : Except ArithFault UInt64 :=
  if bucketNs = 0 then .error .divideByZero
  else .ok (forTimestamp timestampNs bucketNs)

/-- What `dir_name` needs of chrono: `from_timestamp` with no nanoseconds, the default time and
`format("%Y%m%d%H")`. -/
structure Chrono where
  DateTime : Type
  fromTimestamp : Int64 → Option DateTime
  epoch : DateTime
  formatHour : DateTime → String

/-- The seconds of the `u64` timestamps are times, and different hours have different texts. -/
structure Chrono.DistinctHours (c : Chrono) : Prop where
  time : ∀ secs : Int64, 0 ≤ secs.toInt → secs.toInt ≤ 18446744073 →
    ∃ t, c.fromTimestamp secs = some t
  distinct : ∀ (secs secs' : Int64) (t t' : c.DateTime), c.fromTimestamp secs = some t →
    c.fromTimestamp secs' = some t' → c.formatHour t = c.formatHour t' →
    secs.toInt / 3600 = secs'.toInt / 3600

def dirName (c : Chrono) (key : UInt64) : String :=
  c.formatHour ((c.fromTimestamp (key / 1000000000).toInt64).getD c.epoch)

/-! ### The width of the buckets -/

theorem checkedMul_ok (a b r : UInt64) (h : checkedMul a b = .ok r) :
    r.toNat = b.toNat * a.toNat := by
  unfold checkedMul at h
  split at h
  next hlt =>
    cases h
    rw [UInt64.toNat_mul, Nat.mod_eq_of_lt hlt, Nat.mul_comm]
  · cases h

theorem checkedMul_of_lt (a b : UInt64) (h : b.toNat * a.toNat < 18446744073709551616) :
    checkedMul a b = .ok (a * b) := by
  rw [checkedMul, if_pos (Nat.mul_comm b.toNat a.toNat ▸ h)]

theorem bucketNs_eq (hours secs : UInt64) (h : checkedMul hours 3600 = .ok secs) :
    bucketNs hours = checkedMul secs 1000000000 := by
  simp only [bucketNs, h, bind, Except.bind]

theorem bucketNs_ok (hours bucket : UInt64) (h : bucketNs hours = .ok bucket) :
    bucket.toNat = 3600000000000 * hours.toNat := by
  cases hsecs : checkedMul hours 3600 with
  | error e =>
    simp only [bucketNs, hsecs, bind, Except.bind] at h
    cases h
  | ok secs =>
    rw [bucketNs_eq hours secs hsecs] at h
    have hfirst := checkedMul_ok hours 3600 secs hsecs
    have hsecond := checkedMul_ok secs 1000000000 bucket h
    rw [hsecond, hfirst, ← Nat.mul_assoc]
    rfl

theorem bucketNs_of_lt (hours : UInt64) (h : 3600000000000 * hours.toNat < 18446744073709551616) :
    ∃ bucket, bucketNs hours = .ok bucket := by
  have hfirst : checkedMul hours 3600 = .ok (hours * 3600) := by
    refine checkedMul_of_lt _ _ (Nat.lt_of_le_of_lt ?_ h)
    exact Nat.mul_le_mul_right _ (by decide)
  refine ⟨hours * 3600 * 1000000000, ?_⟩
  rw [bucketNs_eq hours _ hfirst]
  refine checkedMul_of_lt _ _ ?_
  rw [checkedMul_ok _ _ _ hfirst, ← Nat.mul_assoc]
  exact h

/-! ### Keys -/

theorem partitionKey_env {ρ : Type} (env : Env ρ) (r : ρ) :
    partitionKey (env.timestampNs r) env.bucketNs = .ok (env.key r) :=
  if_neg env.bucket_ne

theorem toNat_forTimestamp (ts bucket : UInt64) :
    (forTimestamp ts bucket).toNat = ts.toNat - ts.toNat % bucket.toNat := by
  have hle : ts % bucket ≤ ts := by
    rw [UInt64.le_iff_toNat_le, UInt64.toNat_mod]
    exact Nat.mod_le _ _
  rw [forTimestamp, UInt64.toNat_sub_of_le _ _ hle, UInt64.toNat_mod]

theorem forTimestamp_eq_mul (ts bucket : UInt64) :
    (forTimestamp ts bucket).toNat = bucket.toNat * (ts.toNat / bucket.toNat) := by
  have hdiv := Nat.div_add_mod ts.toNat bucket.toNat
  rw [toNat_forTimestamp]
  omega

theorem partitionKey_bounds (ts bucket : UInt64) (h : bucket ≠ 0) :
    (forTimestamp ts bucket).toNat ≤ ts.toNat ∧
      ts.toNat < (forTimestamp ts bucket).toNat + bucket.toNat := by
  have hpos : 0 < bucket.toNat := by
    refine Nat.pos_of_ne_zero fun hzero => h ?_
    exact UInt64.toNat_inj.mp hzero
  have hmod := Nat.mod_lt ts.toNat hpos
  have hle := Nat.mod_le ts.toNat bucket.toNat
  rw [toNat_forTimestamp]
  omega

/-! ### Directories -/

theorem toInt_seconds (key : UInt64) :
    (key / 1000000000).toInt64.toInt = (key.toNat / 1000000000 : Nat) := by
  have hlt := key.toNat_lt
  have hdiv : (key / 1000000000).toNat = key.toNat / 1000000000 := by
    rw [UInt64.toNat_div]
    rfl
  have hsigned : (key / 1000000000).toInt64.toInt = (key / 1000000000).toNat := by
    have hbits : (key / 1000000000).toInt64.toInt = (key / 1000000000).toBitVec.toInt := rfl
    have hnat : (key / 1000000000).toNat = (key / 1000000000).toBitVec.toNat := rfl
    rw [hbits, BitVec.toInt_eq_toNat_cond, if_pos]
    · rw [hnat]
    · omega
  rw [hsigned, hdiv]

theorem dirName_inj (c : Chrono) (hc : c.DistinctHours) (key key' : UInt64) (m m' : Nat)
    (hkey : key.toNat = 3600000000000 * m) (hkey' : key'.toNat = 3600000000000 * m')
    (h : dirName c key = dirName c key') : key = key' := by
  have hlt := key.toNat_lt
  have hlt' := key'.toNat_lt
  have hsecs := toInt_seconds key
  have hsecs' := toInt_seconds key'
  obtain ⟨t, ht⟩ := hc.time (key / 1000000000).toInt64 (by omega) (by omega)
  obtain ⟨t', ht'⟩ := hc.time (key' / 1000000000).toInt64 (by omega) (by omega)
  rw [dirName, dirName, ht, ht', Option.getD_some, Option.getD_some] at h
  have hhours := hc.distinct _ _ t t' ht ht' h
  rw [hsecs, hsecs'] at hhours
  refine UInt64.toNat_inj.mp ?_
  omega

/-- Every operation succeeds, the key of a timestamp is the start of its bucket, and two
timestamps share a directory exactly when they share a key. -/
def RoutesTimestamps (c : Chrono) (partitionHours : UInt64) : Prop :=
  ∃ bucket, bucketNs partitionHours = .ok bucket ∧
    ∀ ts, ∃ key, partitionKey ts bucket = .ok key ∧
      key.toNat ≤ ts.toNat ∧ ts.toNat < key.toNat + bucket.toNat ∧
      ∀ ts' key', partitionKey ts' bucket = .ok key' →
        (dirName c key = dirName c key' ↔ key = key')

/-- Routing is total and unambiguous for every width except zero and those whose number of
nanoseconds overflows; `open` accepts all of them. -/
theorem partition_routing_iff (c : Chrono) (hc : c.DistinctHours) (partitionHours : UInt64) :
    RoutesTimestamps c partitionHours ↔
      0 < partitionHours.toNat ∧ 3600000000000 * partitionHours.toNat < 18446744073709551616 := by
  constructor
  · intro h
    obtain ⟨bucket, hbucket, hroutes⟩ := h
    have hwidth := bucketNs_ok _ _ hbucket
    have hlt := bucket.toNat_lt
    obtain ⟨key, hkey, _⟩ := hroutes 0
    have hne : bucket ≠ 0 := by
      intro hzero
      subst hzero
      cases hkey
    have hpos : bucket.toNat ≠ 0 := fun hzero => hne (UInt64.toNat_inj.mp hzero)
    omega
  · intro h
    obtain ⟨hpos, hlt⟩ := h
    obtain ⟨bucket, hbucket⟩ := bucketNs_of_lt partitionHours hlt
    have hwidth := bucketNs_ok _ _ hbucket
    have hne : bucket ≠ 0 := by
      intro hzero
      subst hzero
      simp only [UInt64.reduceToNat] at hwidth
      omega
    have hkeys : ∀ ts, partitionKey ts bucket = .ok (forTimestamp ts bucket) :=
      fun ts => if_neg hne
    have hhours : ∀ ts, (forTimestamp ts bucket).toNat =
        3600000000000 * (partitionHours.toNat * (ts.toNat / bucket.toNat)) := by
      intro ts
      rw [forTimestamp_eq_mul, hwidth, Nat.mul_assoc]
    refine ⟨bucket, hbucket, fun ts => ⟨_, hkeys ts, ?_⟩⟩
    obtain ⟨hle, hnext⟩ := partitionKey_bounds ts bucket hne
    refine ⟨hle, hnext, ?_⟩
    intro ts' key' hkey'
    rw [hkeys ts'] at hkey'
    cases hkey'
    constructor
    · exact dirName_inj c hc _ _ _ _ (hhours ts) (hhours ts')
    · exact fun h => congrArg (dirName c) h

def countedHours : Chrono where
  DateTime := Nat
  fromTimestamp secs := if 0 ≤ secs.toInt then some secs.toInt.toNat else none
  epoch := 0
  formatHour t := String.ofList (LibText.decimal (t / 3600))

theorem distinctHours_counted : countedHours.DistinctHours where
  time secs hpos _ := ⟨secs.toInt.toNat, if_pos hpos⟩
  distinct secs secs' t t' ht ht' h := by
    obtain ⟨hpos, hsecs⟩ := Option.ite_none_right_eq_some.mp ht
    obtain ⟨hpos', hsecs'⟩ := Option.ite_none_right_eq_some.mp ht'
    cases hsecs
    cases hsecs'
    have hread := congrArg LibText.parseNat (String.ofList_injective h)
    rw [LibText.parseNat_decimal, LibText.parseNat_decimal] at hread
    have hhours : secs.toInt.toNat / 3600 = secs'.toInt.toNat / 3600 := Option.some.inj hread
    omega

theorem partition_routing_daily : RoutesTimestamps countedHours 24 :=
  (partition_routing_iff countedHours distinctHours_counted 24).mpr (by decide)

/-- A width of zero divides by zero, and one of 585 years overflows. -/
theorem partition_routing_fails :
    bucketNs 0 = .ok 0 ∧ partitionKey 7 0 = .error .divideByZero ∧
    bucketNs 5124096 = .error .overflow := by
  decide

end InfraLens.Storage
