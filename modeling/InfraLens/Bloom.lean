import InfraLens.LibBits
import InfraLens.LibBytes

/-! `BloomFilter` (bloom.rs): a bit array addressed by double hashing, and its file
format. The hash and the floating-point sizing formulas are parameters. -/
namespace InfraLens.Bloom
open LibBits LibBytes

/-- The ways the Rust code stops without returning a value. -/
inductive Panic where
  | overflow
  | divideByZero
  | outOfBounds
  deriving DecidableEq

structure BloomFilter where
  bits : List UInt8
  numBits : UInt64
  numHashes : UInt32
  deriving DecidableEq

/-- The two formulas of `BloomFilter::new` at the writers' rate: the number of bits for so
many items, and of hashes for so many bits and items. The first saturates at `u64::MAX`, but not
below 2^60 items, which is more than a slice of records can have. -/
structure Sizing where
  m : UInt64 → UInt64
  hashes : UInt64 → UInt64 → UInt32
  small : ∀ n, n.toNat < 2 ^ 60 → (m n).toNat + 7 < 2 ^ 64

/-- `num_hashes.max(1).min(16)`. -/
def clampHashes (k : UInt32) : UInt32 := if k < 1 then 1 else if 16 < k then 16 else k

def BloomFilter.new (sizing : Sizing) (expectedItems : UInt64) : BloomFilter :=
  let m := sizing.m expectedItems
  let numBits := if m < 64 then 64 else m
  { bits := List.replicate ((numBits.toNat + 7) / 8) 0
    numBits := numBits
    numHashes := clampHashes (sizing.hashes numBits expectedItems) }

section Hashing
variable (sip : List UInt8 → UInt64 → UInt64)

/-- The dividend of `hash_index`: double hashing, wrapping. -/
def doubleHash (key : List UInt8) (seed : UInt32) : UInt64 :=
  sip key 0xCAFEF00DDEADBEEF + seed.toUInt64 * sip key (seed.toUInt64 ^^^ 0x0102030405060708)

def BloomFilter.hashIndex (f : BloomFilter) (key : List UInt8) (seed : UInt32) :
    Except Panic UInt64 :=
  if f.numBits = 0 then .error .divideByZero else .ok (doubleHash sip key seed % f.numBits)

/-- `self.bits[bit / 8] |= 1 << (bit % 8)`. -/
def BloomFilter.set (f : BloomFilter) (bit : UInt64) : Except Panic BloomFilter :=
  if bit.toNat / 8 < f.bits.length then .ok { f with bits := setBit f.bits bit.toNat }
  else .error .outOfBounds

/-- `self.bits[bit / 8] & (1 << (bit % 8)) != 0`. -/
def BloomFilter.test (f : BloomFilter) (bit : UInt64) : Except Panic Bool :=
  match f.bits[bit.toNat / 8]? with
  | some b => .ok (!(b &&& mask bit.toNat == 0))
  | none => .error .outOfBounds

def BloomFilter.insert (f : BloomFilter) (key : List UInt8) : Except Panic BloomFilter :=
  (List.range f.numHashes.toNat).foldlM (fun g i =>
    (g.hashIndex sip key (UInt32.ofNat i)).bind g.set) f

def BloomFilter.contains (f : BloomFilter) (key : List UInt8) : Except Panic Bool :=
  (List.range f.numHashes.toNat).allM fun i =>
    (f.hashIndex sip key (UInt32.ofNat i)).bind f.test

end Hashing

def BloomFilter.toBytes (f : BloomFilter) : List UInt8 :=
  leBytes 8 f.numBits.toNat ++ leBytes 4 f.numHashes.toNat ++ f.bits

def fromBytes (data : List UInt8) : Except Panic (Option BloomFilter) :=
  if data.length < 12 then .ok none
  else
    let numBits := UInt64.ofNat (fromLe (data.take 8))
    let numHashes := UInt32.ofNat (fromLe ((data.drop 8).take 4))
    if 2 ^ 64 ≤ numBits.toNat + 7 then .error .overflow
    else
      let byteLen := (numBits.toNat + 7) / 8
      if data.length < 12 + byteLen then .ok none
      else .ok (some ⟨(data.drop 12).take byteLen, numBits, numHashes⟩)

/-- What `BloomFilter::new` establishes: room for every index, and at least one hash. -/
structure BloomFilter.Sized (f : BloomFilter) : Prop where
  room : f.bits.length = (f.numBits.toNat + 7) / 8
  pos : 0 < f.numBits.toNat
  small : f.numBits.toNat + 7 < 2 ^ 64
  hashes : 0 < f.numHashes.toNat

theorem clampHashes_pos (k : UInt32) : 0 < (clampHashes k).toNat := by
  unfold clampHashes
  split
  · decide
  · rename_i h
    rw [UInt32.lt_iff_toNat_lt] at h
    have h1 : (1 : UInt32).toNat = 1 := rfl
    split
    · decide
    · omega

theorem sized_of_small (sizing : Sizing) (n : UInt64) (hm : (sizing.m n).toNat + 7 < 2 ^ 64) :
    (BloomFilter.new sizing n).Sized := by
  refine ⟨by simp [BloomFilter.new], ?_, ?_, clampHashes_pos _⟩
  · simp only [BloomFilter.new]
    split
    · decide
    · rename_i h
      rw [UInt64.lt_iff_toNat_lt] at h
      have h64 : (64 : UInt64).toNat = 64 := rfl
      omega
  · simp only [BloomFilter.new]
    split
    · decide
    · exact hm

theorem sized_new (sizing : Sizing) (n : UInt64) (hn : n.toNat < 2 ^ 60) :
    (BloomFilter.new sizing n).Sized :=
  sized_of_small sizing n (sizing.small n hn)

theorem fromLe_numBits (f : BloomFilter) : fromLe (f.toBytes.take 8) = f.numBits.toNat := by
  have htake : f.toBytes.take 8 = leBytes 8 f.numBits.toNat := by simp [BloomFilter.toBytes]
  rw [htake]
  exact fromLe_leBytes_of_lt 8 _ f.numBits.toNat_lt

theorem fromBytes_toBytes (f : BloomFilter) (h : f.Sized) :
    fromBytes f.toBytes = .ok (some f) := by
  have hhashes : fromLe (leBytes 4 f.numHashes.toNat) = f.numHashes.toNat :=
    fromLe_leBytes_of_lt 4 _ f.numHashes.toNat_lt
  have hmid : (f.toBytes.drop 8).take 4 = leBytes 4 f.numHashes.toNat := by
    simp [BloomFilter.toBytes]
  have hdrop : f.toBytes.drop 12 = f.bits := List.drop_left' (by simp)
  have hlen : f.toBytes.length = 12 + (f.numBits.toNat + 7) / 8 := by
    simp only [BloomFilter.toBytes, List.length_append, leBytes_length, h.room]
  have hroom : f.bits.take ((f.numBits.toNat + 7) / 8) = f.bits :=
    List.take_of_length_le (Nat.le_of_eq h.room)
  have hsmall : ¬ 2 ^ 64 ≤ f.numBits.toNat + 7 := Nat.not_le.mpr h.small
  simp only [fromBytes, fromLe_numBits, hmid, hdrop, hlen, hhashes, hroom, UInt64.ofNat_toNat,
    UInt32.ofNat_toNat, hsmall, if_false, Nat.lt_irrefl,
    show ¬ 12 + (f.numBits.toNat + 7) / 8 < 12 by omega]

/-- A file that decodes is the file of a filter whose size does not overflow. -/
theorem small_of_fromBytes (f g : BloomFilter) (h : fromBytes f.toBytes = .ok (some g)) :
    f.numBits.toNat + 7 < 2 ^ 64 := by
  have hlen : ¬ f.toBytes.length < 12 := by
    simp only [BloomFilter.toBytes, List.length_append, leBytes_length]
    omega
  by_contra hover
  simp only [fromBytes, fromLe_numBits, UInt64.ofNat_toNat, hlen, if_false, Nat.not_lt.mp hover,
    if_true] at h
  cases h

/-! ### Insertion -/

section Hashing
variable (sip : List UInt8 → UInt64 → UInt64)

def BloomFilter.index (f : BloomFilter) (key : List UInt8) (seed : Nat) : UInt64 :=
  doubleHash sip key (UInt32.ofNat seed) % f.numBits

/-- A filter of the same size with at least the bits of `f`. -/
structure BloomFilter.Grown (f g : BloomFilter) : Prop where
  sized : g.Sized
  numBits : g.numBits = f.numBits
  numHashes : g.numHashes = f.numHashes
  bits : ∀ n, bitAt f.bits n = true → bitAt g.bits n = true

theorem grown_refl (f : BloomFilter) (h : f.Sized) : f.Grown f := ⟨h, rfl, rfl, fun _ hn => hn⟩

theorem grown_trans (f g k : BloomFilter) (h : f.Grown g) (h' : g.Grown k) : f.Grown k :=
  ⟨h'.sized, h'.numBits.trans h.numBits, h'.numHashes.trans h.numHashes,
    fun n hn => h'.bits n (h.bits n hn)⟩

theorem index_eq (f g : BloomFilter) (h : g.numBits = f.numBits) (key : List UInt8)
    (seed : Nat) : g.index sip key seed = f.index sip key seed := by
  simp only [BloomFilter.index, h]

theorem hashIndex_ok (f : BloomFilter) (h : f.Sized) (key : List UInt8) (seed : Nat) :
    f.hashIndex sip key (UInt32.ofNat seed) = .ok (f.index sip key seed) := by
  have hne : f.numBits ≠ 0 := by
    intro he
    have hp := h.pos
    simp [he] at hp
  simp only [BloomFilter.hashIndex, hne, if_false, BloomFilter.index]

theorem index_room (f : BloomFilter) (h : f.Sized) (key : List UInt8) (seed : Nat) :
    (f.index sip key seed).toNat / 8 < f.bits.length := by
  have hlt : (f.index sip key seed).toNat < f.numBits.toNat := by
    simp only [BloomFilter.index, UInt64.toNat_mod]
    exact Nat.mod_lt _ h.pos
  rw [h.room]
  omega

theorem set_ok (f : BloomFilter) (h : f.Sized) (bit : UInt64)
    (hb : bit.toNat / 8 < f.bits.length) :
    ∃ g, f.set bit = .ok g ∧ f.Grown g ∧ bitAt g.bits bit.toNat = true := by
  refine ⟨{ f with bits := setBit f.bits bit.toNat }, by simp [BloomFilter.set, hb], ?_,
    bitAt_setBit_self f.bits bit.toNat hb⟩
  exact ⟨⟨(length_setBit _ _).trans h.room, h.pos, h.small, h.hashes⟩, rfl, rfl,
    fun n hn => bitAt_setBit_of_bitAt f.bits bit.toNat n hn⟩

theorem insert_loop (key : List UInt8) (seeds : List Nat) (f : BloomFilter) (h : f.Sized) :
    ∃ g, seeds.foldlM (fun g i => (g.hashIndex sip key (UInt32.ofNat i)).bind g.set) f =
        (.ok g : Except Panic BloomFilter) ∧
      f.Grown g ∧ ∀ i ∈ seeds, bitAt g.bits (f.index sip key i).toNat = true := by
  induction seeds generalizing f with
  | nil => exact ⟨f, rfl, grown_refl f h, by simp⟩
  | cons i seeds ih =>
    obtain ⟨g, hset, hgrown, hbit⟩ := set_ok f h _ (index_room sip f h key i)
    obtain ⟨k, hrest, hgrown', hbits⟩ := ih g hgrown.sized
    refine ⟨k, ?_, grown_trans f g k hgrown hgrown', ?_⟩
    · rw [List.foldlM_cons, hashIndex_ok sip f h key i]
      change (f.set (f.index sip key i)).bind _ = _
      rw [hset]
      exact hrest
    · intro j hj
      cases List.mem_cons.mp hj with
      | inl he => exact he ▸ hgrown'.bits _ hbit
      | inr hm =>
        rw [← index_eq sip f g hgrown.numBits]
        exact hbits j hm

theorem insert_ok (f : BloomFilter) (h : f.Sized) (key : List UInt8) :
    ∃ g, f.insert sip key = .ok g ∧ f.Grown g ∧
      ∀ i < f.numHashes.toNat, bitAt g.bits (f.index sip key i).toNat = true := by
  obtain ⟨g, hins, hgrown, hbits⟩ := insert_loop sip key (List.range f.numHashes.toNat) f h
  exact ⟨g, hins, hgrown, fun i hi => hbits i (List.mem_range.mpr hi)⟩

/-! ### Membership -/

theorem test_ok (f : BloomFilter) (bit : UInt64) (hb : bit.toNat / 8 < f.bits.length) :
    f.test bit = .ok (bitAt f.bits bit.toNat) := by
  simp only [BloomFilter.test, List.getElem?_eq_getElem hb, and_mask_eq_zero, Bool.not_not,
    bitAt, List.getD_eq_getElem _ _ hb]

theorem contains_loop (f : BloomFilter) (h : f.Sized) (key : List UInt8) (seeds : List Nat) :
    (seeds.allM fun i => (f.hashIndex sip key (UInt32.ofNat i)).bind f.test) =
      (.ok (seeds.all fun i => bitAt f.bits (f.index sip key i).toNat) : Except Panic Bool) := by
  induction seeds with
  | nil => rfl
  | cons i seeds ih =>
    have htest : (f.hashIndex sip key (UInt32.ofNat i)).bind f.test =
        .ok (bitAt f.bits (f.index sip key i).toNat) := by
      rw [hashIndex_ok sip f h key i]
      exact test_ok f _ (index_room sip f h key i)
    rw [List.allM, htest, List.all_cons]
    cases bitAt f.bits (f.index sip key i).toNat with
    | false => rfl
    | true => exact ih

theorem contains_eq (f : BloomFilter) (h : f.Sized) (key : List UInt8) :
    f.contains sip key = .ok ((List.range f.numHashes.toNat).all fun i =>
      bitAt f.bits (f.index sip key i).toNat) :=
  contains_loop sip f h key _

theorem contains_of_grown (f g k : BloomFilter) (key : List UInt8) (h : f.Sized)
    (hins : f.insert sip key = .ok g) (hk : g.Grown k) : k.contains sip key = .ok true := by
  obtain ⟨g', hins', hgrown, hbits⟩ := insert_ok sip f h key
  have he : g' = g := by simpa [hins] using hins'.symm
  subst he
  have hall := grown_trans f g' k hgrown hk
  rw [contains_eq sip k hk.sized key, hall.numHashes]
  congr 1
  rw [List.all_eq_true]
  intro i hi
  rw [index_eq sip f k hall.numBits]
  exact hk.bits _ (hbits i (List.mem_range.mp hi))

def BloomFilter.insertAll (f : BloomFilter) (keys : List (List UInt8)) :
    Except Panic BloomFilter :=
  keys.foldlM (fun g key => g.insert sip key) f

theorem insertAll_ok (f : BloomFilter) (h : f.Sized) (keys : List (List UInt8)) :
    ∃ g, f.insertAll sip keys = .ok g ∧ f.Grown g ∧
      ∀ key ∈ keys, g.contains sip key = .ok true := by
  induction keys generalizing f with
  | nil => exact ⟨f, rfl, grown_refl f h, by simp⟩
  | cons key keys ih =>
    obtain ⟨g, hins, hgrown, hbits⟩ := insert_ok sip f h key
    obtain ⟨k, hrest, hgrown', hall⟩ := ih g hgrown.sized
    refine ⟨k, ?_, grown_trans f g k hgrown hgrown', ?_⟩
    · rw [BloomFilter.insertAll, List.foldlM_cons, hins]
      exact hrest
    · intro other hother
      cases List.mem_cons.mp hother with
      | inl he => exact he ▸ contains_of_grown sip f g k key h hins hgrown'
      | inr hm => exact hall other hm

theorem new_contains (sizing : Sizing) (n : UInt64) (hs : (BloomFilter.new sizing n).Sized)
    (key : List UInt8) : (BloomFilter.new sizing n).contains sip key = .ok false := by
  rw [contains_eq sip _ hs key]
  congr 1
  rw [List.all_eq_false]
  refine ⟨0, List.mem_range.mpr hs.hashes, ?_⟩
  simp [BloomFilter.new, bitAt_replicate_zero]

/-- The file of a filter into which nothing was inserted has no key, if it decodes at all. -/
theorem fromBytes_new (sizing : Sizing) (n : UInt64) (f : BloomFilter) (key : List UInt8)
    (h : fromBytes (BloomFilter.new sizing n).toBytes = .ok (some f)) :
    f.contains sip key = .ok false := by
  have hsmall : (sizing.m n).toNat + 7 < 2 ^ 64 := by
    have hbits := small_of_fromBytes _ f h
    simp only [BloomFilter.new] at hbits
    split at hbits
    · rename_i hword
      have hlt : (sizing.m n).toNat < 64 := UInt64.lt_iff_toNat_lt.mp hword
      omega
    · exact hbits
  have hs := sized_of_small sizing n hsmall
  rw [fromBytes_toBytes _ hs] at h
  cases h
  exact new_contains sip sizing n hs key

end Hashing

end InfraLens.Bloom
