import Mathlib.Data.Nat.Bitwise

/-! A bit array packed into bytes, eight bits to a byte, least significant first. -/
namespace InfraLens.LibBits

def bitAt (bits : List UInt8) (n : Nat) : Bool := (bits.getD (n / 8) 0).toNat.testBit (n % 8)

def mask (n : Nat) : UInt8 := 1 <<< UInt8.ofNat (n % 8)

def setBit (bits : List UInt8) (n : Nat) : List UInt8 := bits.modify (n / 8) (· ||| mask n)

theorem toNat_mask (n : Nat) : (mask n).toNat = 2 ^ (n % 8) := by
  have hall : ∀ k < 8, ((1 : UInt8) <<< UInt8.ofNat k).toNat = 2 ^ k := by decide
  exact hall (n % 8) (Nat.mod_lt n (by decide))

theorem and_mask_eq_zero (b : UInt8) (n : Nat) :
    (b &&& mask n == 0) = !b.toNat.testBit (n % 8) := by
  have hnat : (b &&& mask n).toNat = (b.toNat.testBit (n % 8)).toNat * 2 ^ (n % 8) := by
    rw [UInt8.toNat_and, toNat_mask, Nat.and_two_pow]
  cases hb : b.toNat.testBit (n % 8) with
  | false =>
    have hz : b &&& mask n = 0 := UInt8.toNat_inj.mp (by rw [hnat, hb]; simp)
    simp [hz]
  | true =>
    have hne : b &&& mask n ≠ 0 := by
      intro hz
      rw [hz, hb, Bool.toNat_true, Nat.one_mul] at hnat
      exact absurd hnat (Nat.two_pow_pos (n % 8)).ne
    simpa using hne

@[simp] theorem length_setBit (bits : List UInt8) (n : Nat) :
    (setBit bits n).length = bits.length := List.length_modify ..

theorem bitAt_setBit_self (bits : List UInt8) (n : Nat) (h : n / 8 < bits.length) :
    bitAt (setBit bits n) n = true := by
  simp [bitAt, setBit, List.getD_eq_getElem?_getD, h, toNat_mask, Nat.testBit_or,
    Nat.testBit_two_pow_self]

theorem bitAt_setBit_of_bitAt (bits : List UInt8) (n m : Nat) (h : bitAt bits m = true) :
    bitAt (setBit bits n) m = true := by
  have hm : m / 8 < bits.length := by
    by_contra hlt
    rw [bitAt, List.getD_eq_default _ _ (Nat.le_of_not_lt hlt)] at h
    simp at h
  rw [bitAt, List.getD_eq_getElem _ _ hm] at h
  by_cases he : n / 8 = m / 8
  · simp [bitAt, setBit, List.getD_eq_getElem?_getD, hm, he, Nat.testBit_or, h]
  · simp [bitAt, setBit, List.getD_eq_getElem?_getD, hm, he, h]

theorem bitAt_replicate_zero (k n : Nat) : bitAt (List.replicate k 0) n = false := by
  by_cases h : n / 8 < k
  · simp [bitAt, List.getD_eq_getElem?_getD, h]
  · simp [bitAt, List.getD_eq_getElem?_getD, h]

end InfraLens.LibBits
