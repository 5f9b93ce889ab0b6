import InfraLens.Plan
import InfraLens.Sql

/-! The range `extract_time_range` (rules.rs) takes from a predicate against the rows on which the
predicate is true: the end is always sound, the start is not when its literal is negative. -/
namespace InfraLens.Query
open Arrow LibKleene

section Range
variable {F : Type}

def intLiteral : Expr F → Option Int64
  | .literal (.int n) => some n
  | _ => none

/-- The literal the start of the range is taken from; a range with only an end starts at zero. -/
def startLiteral : Expr F → Option Int64
  | .binOp .and left right =>
    match extractTimeRange left with
    | some _ => startLiteral left
    | none => startLiteral right
  | .binOp .gtEq left right => if isTs left then intLiteral right else none
  | .between expr low _ => if isTs expr then intLiteral low else none
  | _ => none

/-- A row with a timestamp, seen through the values of the operands of a predicate. -/
structure RowAt (val : Expr F → Option (Datum F)) (ts : UInt64) : Prop where
  timestamp : ∀ q, val (.column q "timestamp_ns") = some (.int ts.toNat)
  literal : ∀ n, val (.literal (.int n)) = some (.int n.toInt)

/-! ### Literals -/

theorem toNat_toUInt64 (n : Int64) (h : 0 ≤ n.toInt) : (n.toUInt64.toNat : Int) = n.toInt := by
  have hn : n.toInt = n.toBitVec.toInt := rfl
  have hu : n.toUInt64.toNat = n.toBitVec.toNat := rfl
  rw [hn, BitVec.toInt_eq_toNat_cond] at h ⊢
  rw [hu]
  split at h
  next hlt => rw [if_pos hlt]
  next hge =>
    have hlt := n.toBitVec.isLt
    omega

/-- A negative literal wraps to the top of the timestamps. -/
theorem toNat_toUInt64_neg (n : Int64) (h : n.toInt < 0) :
    (n.toUInt64.toNat : Int) = 18446744073709551616 + n.toInt := by
  have hn : n.toInt = n.toBitVec.toInt := rfl
  have hu : n.toUInt64.toNat = n.toBitVec.toNat := rfl
  rw [hn, BitVec.toInt_eq_toNat_cond] at h ⊢
  rw [hu]
  split at h
  next hlt => omega
  next hge =>
    rw [if_neg hge]
    omega

theorem isTs_eq (e : Expr F) (h : isTs e = true) : ∃ q, e = .column q "timestamp_ns" := by
  cases e with
  | column q name =>
    have hname : name = "timestamp_ns" := by simpa [isTs] using h
    exact ⟨q, by rw [hname]⟩
  | _ => cases h

theorem asU64_eq_map (e : Expr F) : asU64 e = (intLiteral e).map Int64.toUInt64 := by
  cases e with
  | literal lit => cases lit <;> rfl
  | _ => rfl

theorem intLiteral_eq (e : Expr F) (n : Int64) (h : intLiteral e = some n) :
    e = .literal (.int n) := by
  unfold intLiteral at h
  split at h
  · cases h
    rfl
  · cases h

theorem extractTimeRange_start (p : Expr F) (startNs endNs : UInt64)
    (h : extractTimeRange p = some (startNs, endNs)) :
    startNs = ((startLiteral p).map Int64.toUInt64).getD 0 := by
  fun_induction extractTimeRange p generalizing startNs endNs with
  | case1 left right ls le rs re hr hl ihl ihr =>
    cases h
    simp only [startLiteral, hl]
    exact ihl ls le hl
  | case2 left right v hr hl ihl ihr =>
    cases h
    simp only [startLiteral, hl]
    exact ihl startNs endNs hl
  | case3 left right v hr hl ihl ihr =>
    cases h
    simp only [startLiteral, hl]
    exact ihr startNs endNs hr
  | case4 left right hr hl ihl ihr => cases h
  | case5 left right he =>
    obtain ⟨v, hv, hrange⟩ := Option.map_eq_some_iff.mp h
    cases hrange
    rw [startLiteral, if_pos he, ← asU64_eq_map, hv]
    rfl
  | case6 left right he => cases h
  | case7 left right he =>
    obtain ⟨v, hv, hrange⟩ := Option.map_eq_some_iff.mp h
    cases hrange
    rfl
  | case8 left right he => cases h
  | case9 e low high he lo hi hhi hlo =>
    cases h
    rw [startLiteral, if_pos he, ← asU64_eq_map, hlo]
    rfl
  | case10 e low high he hnone => cases h
  | case11 e low high he => cases h
  | case12 p hand hge hle hbetween => cases h

/-! ### Comparisons -/

variable [FloatOps F]

theorem sqlCompare_gtEq (a b : Int) :
    sqlCompare (F := F) .gtEq (some (.int a)) (some (.int b)) = some (decide (b ≤ a)) := by
  change some (compareOfLessAndEq a b != .lt) = _
  unfold compareOfLessAndEq
  split
  next hlt => simp [Int.not_le.mpr hlt]
  next hge =>
    split
    · simp_all
    · simp [Int.not_lt.mp hge]

theorem sqlCompare_ltEq (a b : Int) :
    sqlCompare (F := F) .ltEq (some (.int a)) (some (.int b)) = some (decide (a ≤ b)) := by
  change some (compareOfLessAndEq a b != .gt) = _
  unfold compareOfLessAndEq
  split
  next hlt => simp [Int.le_of_lt hlt]
  next hge =>
    split
    next heq => simp [heq]
    next hne => simp [show ¬ a ≤ b by omega]

variable (val : Expr F → Option (Datum F)) (ts : UInt64) (hrow : RowAt val ts)
include hrow

theorem below_of_true (e b : Expr F) (n : Int64) (he : isTs e = true) (hb : intLiteral b = some n)
    (h : sqlCompare .gtEq (val e) (val b) = some true) : n.toInt ≤ ts.toNat := by
  obtain ⟨q, rfl⟩ := isTs_eq e he
  rw [intLiteral_eq b n hb, hrow.timestamp, hrow.literal, sqlCompare_gtEq] at h
  exact of_decide_eq_true (Option.some.inj h)

theorem above_of_true (e b : Expr F) (v : UInt64) (he : isTs e = true) (hb : asU64 b = some v)
    (h : sqlCompare .ltEq (val e) (val b) = some true) : ts ≤ v := by
  obtain ⟨q, rfl⟩ := isTs_eq e he
  rw [asU64_eq_map] at hb
  obtain ⟨n, hn, rfl⟩ := Option.map_eq_some_iff.mp hb
  rw [intLiteral_eq b n hn, hrow.timestamp, hrow.literal, sqlCompare_ltEq] at h
  have hle := of_decide_eq_true (Option.some.inj h)
  have hvalue := toNat_toUInt64 n (by omega)
  rw [UInt64.le_iff_toNat_le]
  omega

/-- On a row where the predicate is true, the literal of the start is not above the timestamp. -/
theorem startLiteral_le (p : Expr F) (n : Int64) (hn : startLiteral p = some n)
    (htrue : truth val p = some true) : n.toInt ≤ ts.toNat := by
  fun_induction startLiteral p with
  | case1 left right v hl ih => exact ih hn ((kand_eq_true _ _).mp htrue).1
  | case2 left right hl ih => exact ih hn ((kand_eq_true _ _).mp htrue).2
  | case3 left right he => exact below_of_true val ts hrow left right n he hn htrue
  | case4 left right he => cases hn
  | case5 e low high he =>
    exact below_of_true val ts hrow e low n he hn ((kand_eq_true _ _).mp htrue).1
  | case6 e low high he => cases hn
  | case7 p hand hge hbetween => cases hn

theorem extractTimeRange_end (p : Expr F) (startNs endNs : UInt64)
    (h : extractTimeRange p = some (startNs, endNs)) (htrue : truth val p = some true) :
    ts ≤ endNs := by
  have hmax : ts ≤ 0xFFFFFFFFFFFFFFFF := by
    rw [UInt64.le_iff_toNat_le]
    exact Nat.le_of_lt_succ ts.toNat_lt
  fun_induction extractTimeRange p generalizing startNs endNs with
  | case1 left right ls le rs re hr hl ihl ihr =>
    cases h
    exact ihr rs re hr ((kand_eq_true _ _).mp htrue).2
  | case2 left right v hr hl ihl ihr =>
    cases h
    exact ihl startNs endNs hl ((kand_eq_true _ _).mp htrue).1
  | case3 left right v hr hl ihl ihr =>
    cases h
    exact ihr startNs endNs hr ((kand_eq_true _ _).mp htrue).2
  | case4 left right hr hl ihl ihr => cases h
  | case5 left right he =>
    obtain ⟨v, hv, hrange⟩ := Option.map_eq_some_iff.mp h
    cases hrange
    exact hmax
  | case6 left right he => cases h
  | case7 left right he =>
    obtain ⟨v, hv, hrange⟩ := Option.map_eq_some_iff.mp h
    cases hrange
    exact above_of_true val ts hrow left right endNs he hv htrue
  | case8 left right he => cases h
  | case9 e low high he lo hi hhi hlo =>
    cases h
    exact above_of_true val ts hrow e high hi he hhi ((kand_eq_true _ _).mp htrue).2
  | case10 e low high he hnone => cases h
  | case11 e low high he => cases h
  | case12 p hand hge hle hbetween => cases h

/-- A row on which the predicate is true has its timestamp in the extracted range, unless the
start comes from a negative literal and the timestamp is below what that wraps to. -/
theorem time_range_iff (p : Expr F) (startNs endNs : UInt64)
    (hrange : extractTimeRange p = some (startNs, endNs)) (htrue : truth val p = some true) :
    (startNs ≤ ts ∧ ts ≤ endNs) ↔
      ∀ n, startLiteral p = some n → n.toInt < 0 →
        18446744073709551616 + n.toInt ≤ ts.toNat := by
  have hend := extractTimeRange_end val ts hrow p startNs endNs hrange htrue
  have hstart := extractTimeRange_start p startNs endNs hrange
  constructor
  · rintro ⟨hle, _⟩ n hn hneg
    rw [hstart, hn, UInt64.le_iff_toNat_le] at hle
    have hwrap := toNat_toUInt64_neg n hneg
    simp only [Option.map_some, Option.getD_some] at hle
    omega
  · intro hfar
    refine ⟨?_, hend⟩
    rw [hstart, UInt64.le_iff_toNat_le]
    cases hn : startLiteral p with
    | none => exact Nat.zero_le _
    | some n =>
      have hle := startLiteral_le val ts hrow p n hn htrue
      simp only [Option.map_some, Option.getD_some]
      by_cases hneg : n.toInt < 0
      · have hwrap := toNat_toUInt64_neg n hneg
        have htop := hfar n hn hneg
        omega
      · have hsame := toNat_toUInt64 n (by omega)
        omega

end Range

def timedRow (ts : UInt64) : Expr Exact → Option (Datum Exact)
  | .column _ "timestamp_ns" => some (.int ts.toNat)
  | .literal (.int n) => some (.int n.toInt)
  | _ => none

theorem rowAt_timedRow (ts : UInt64) : RowAt (timedRow ts) ts := ⟨fun _ => rfl, fun _ => rfl⟩

def withinTimes (low high : Int64) : Expr Exact :=
  .binOp .and (.binOp .gtEq (.column none "timestamp_ns") (.literal (.int low)))
    (.binOp .ltEq (.column none "timestamp_ns") (.literal (.int high)))

theorem time_range_sample :
    truth (timedRow 5) (withinTimes 3 9) = some true ∧
    extractTimeRange (withinTimes 3 9) = some (3, 9) ∧ (3 : UInt64) ≤ 5 ∧ (5 : UInt64) ≤ 9 := by
  refine ⟨rfl, rfl, ?_⟩
  refine (time_range_iff (timedRow 5) 5 (rowAt_timedRow 5) (withinTimes 3 9) 3 9 rfl rfl).mpr ?_
  intro n hn hneg
  cases hn
  exact absurd hneg (by decide)

/-- The predicate is true of the row at time 5, which the range leaves out. -/
theorem time_range_unsound :
    truth (timedRow 5) (withinTimes (-1) 9) = some true ∧
    extractTimeRange (withinTimes (-1) 9) = some (18446744073709551615, 9) ∧
    ¬ (18446744073709551615 : UInt64) ≤ 5 :=
  ⟨rfl, rfl, by decide⟩

end InfraLens.Query
