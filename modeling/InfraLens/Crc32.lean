import Mathlib.Data.UInt
import Mathlib.Logic.Function.Iterate

/-! CRC-32 (the reflected IEEE polynomial), the checksum crc32fast documents. Each
byte acts on the register by an injective map, so a change of the last byte alone
always changes the checksum. -/
namespace InfraLens.Crc32

def crcPoly (odd : Bool) : UInt32 := if odd then 0xEDB88320 else 0

def crcBit (s : UInt32) : UInt32 := (s >>> 1) ^^^ crcPoly (s.toBitVec.getLsbD 0)

def crcByte (s : UInt32) (b : UInt8) : UInt32 := crcBit^[8] (s ^^^ b.toUInt32)

def crc32 (bs : List UInt8) : UInt32 := bs.foldl crcByte 0xFFFFFFFF ^^^ 0xFFFFFFFF

theorem crcPoly_top (odd : Bool) : (crcPoly odd).toBitVec.getLsbD 31 = odd := by
  cases odd <;> rfl

theorem crcBit_getLsbD (s : UInt32) (i : Nat) :
    (crcBit s).toBitVec.getLsbD i =
      (s.toBitVec.getLsbD (1 + i) ^^ (crcPoly (s.toBitVec.getLsbD 0)).toBitVec.getLsbD i) := by
  simp [crcBit, UInt32.toBitVec_shiftRight]

/-- The top bit of the result tells whether the polynomial was added. -/
theorem crcBit_injective : Function.Injective crcBit := by
  intro s t h
  have hb (i : Nat) := congrArg (fun x : UInt32 => x.toBitVec.getLsbD i) h
  simp only [crcBit_getLsbD] at hb
  have h0 : s.toBitVec.getLsbD 0 = t.toBitVec.getLsbD 0 := by
    have h31 := hb 31
    simp only [crcPoly_top] at h31
    simpa using h31
  apply UInt32.toBitVec_inj.mp
  apply BitVec.eq_of_getLsbD_eq
  intro i hi
  cases i with
  | zero => exact h0
  | succ i =>
    have hs := hb i
    rw [h0] at hs
    simpa [Nat.add_comm] using hs

theorem crcByte_injective (s : UInt32) : Function.Injective (crcByte s) := by
  intro a b h
  have hx := (crcBit_injective.iterate 8) h
  have ht : a.toUInt32 = b.toUInt32 := by simpa using hx
  exact UInt8.toUInt32_inj.mp ht

theorem crc32_last (bs : List UInt8) (a b : UInt8)
    (h : crc32 (bs ++ [a]) = crc32 (bs ++ [b])) : a = b := by
  simp only [crc32, List.foldl_append, List.foldl_cons, List.foldl_nil] at h
  exact crcByte_injective _ (by simpa using h)

end InfraLens.Crc32
