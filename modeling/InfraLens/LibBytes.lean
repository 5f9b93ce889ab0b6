import Mathlib.Tactic.Linarith
import Mathlib.Tactic.Ring

/-! Byte strings as lists: little-endian integers of a fixed width and reads of
an exact number of bytes. -/
namespace InfraLens.LibBytes

/-- The low `n` base-256 digits of `v`, least significant first. -/
def leBytes : Nat → Nat → List UInt8
  | 0, _ => []
  | n+1, v => UInt8.ofNat v :: leBytes n (v / 256)

def fromLe : List UInt8 → Nat
  | [] => 0
  | b :: bs => b.toNat + 256 * fromLe bs

@[simp] theorem leBytes_length (n v : Nat) : (leBytes n v).length = n := by
  induction n generalizing v with
  | zero => rfl
  | succ n ih => simp [leBytes, ih]

theorem fromLe_leBytes (n v : Nat) : fromLe (leBytes n v) = v % 256 ^ n := by
  induction n generalizing v with
  | zero => simp [leBytes, fromLe, Nat.mod_one]
  | succ n ih =>
    rw [leBytes, fromLe, ih, UInt8.toNat_ofNat', show (2 : Nat) ^ 8 = 256 from rfl,
      pow_succ' 256 n, Nat.mod_mul]

theorem fromLe_leBytes_of_lt (n v : Nat) (h : v < 256 ^ n) : fromLe (leBytes n v) = v := by
  rw [fromLe_leBytes, Nat.mod_eq_of_lt h]

theorem fromLe_lt (bs : List UInt8) : fromLe bs < 256 ^ bs.length := by
  induction bs with
  | nil => simp [fromLe]
  | cons b bs ih =>
    have hb := b.toNat_lt
    rw [fromLe, List.length_cons, pow_succ']
    omega

theorem leBytes_fromLe (n : Nat) (bs : List UInt8) (h : bs.length = n) :
    leBytes n (fromLe bs) = bs := by
  induction bs generalizing n with
  | nil =>
    subst h
    rfl
  | cons b bs ih =>
    subst h
    have hb := b.toNat_lt
    have hhead : UInt8.ofNat (b.toNat + 256 * fromLe bs) = b := by
      apply UInt8.toNat_inj.mp
      rw [UInt8.toNat_ofNat']
      omega
    have htail : (b.toNat + 256 * fromLe bs) / 256 = fromLe bs := by omega
    rw [List.length_cons, leBytes, fromLe, hhead, htail, ih _ rfl]

/-- Read exactly `n` bytes; `none` is the end of input before that many. -/
def readExact (n : Nat) (bs : List UInt8) : Option (List UInt8 × List UInt8) :=
  if n ≤ bs.length then some (bs.take n, bs.drop n) else none

theorem readExact_append (u rest : List UInt8) :
    readExact u.length (u ++ rest) = some (u, rest) := by
  simp [readExact]

theorem readExact_eq_some (n : Nat) (bs u rest : List UInt8)
    (h : readExact n bs = some (u, rest)) : u.length = n ∧ bs = u ++ rest := by
  unfold readExact at h
  split at h
  · cases h
    exact ⟨by simpa using ‹n ≤ bs.length›, (List.take_append_drop n bs).symm⟩
  · cases h

end InfraLens.LibBytes
