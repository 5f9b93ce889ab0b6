import InfraLens.Bloom

/-! What a bloom filter promises over any run of insertions and through its file, and what
decoding promises over any bytes. The hash is arbitrary throughout. -/
namespace InfraLens.Bloom
open LibBits LibBytes

/-- `m.max(64)`. -/
def atLeastWord (m : UInt64) : UInt64 := if m < 64 then 64 else m

/-- `BloomFilter::new` with the results of its two floating-point formulas given: the checked
`num_bits + 7` is the only step that can stop it. -/
def BloomFilter.build (m : UInt64) (hashes : UInt32) : Except Panic BloomFilter :=
  let numBits := atLeastWord m
  if 2 ^ 64 ≤ numBits.toNat + 7 then .error .overflow
  else .ok
    { bits := List.replicate ((numBits.toNat + 7) / 8) 0
      numBits := numBits
      numHashes := clampHashes hashes }

theorem build_sizing (sizing : Sizing) (n : UInt64) (hn : n.toNat < 2 ^ 60) :
    BloomFilter.build (sizing.m n)
        (sizing.hashes (BloomFilter.new sizing n).numBits n) =
      .ok (BloomFilter.new sizing n) := by
  have hsmall := (sized_new sizing n hn).small
  simp only [BloomFilter.new] at hsmall
  simp only [BloomFilter.build, BloomFilter.new, atLeastWord, Nat.not_le.mpr hsmall, if_false]

theorem atLeastWord_le (m : UInt64) : 64 ≤ (atLeastWord m).toNat := by
  unfold atLeastWord
  split
  · decide
  · rename_i hm
    rw [UInt64.lt_iff_toNat_lt] at hm
    have h64 : (64 : UInt64).toNat = 64 := rfl
    omega

theorem clampHashes_le (k : UInt32) : (clampHashes k).toNat ≤ 16 := by
  unfold clampHashes
  split
  · decide
  · split
    · decide
    · rename_i h
      rw [UInt32.lt_iff_toNat_lt] at h
      have h16 : (16 : UInt32).toNat = 16 := rfl
      omega

theorem build_ok (m : UInt64) (k : UInt32) (f : BloomFilter)
    (h : BloomFilter.build m k = .ok f) :
    f.Sized ∧ 64 ≤ f.numBits.toNat ∧ f.numHashes.toNat ≤ 16 := by
  simp only [BloomFilter.build] at h
  split at h
  · cases h
  · rename_i hsmall
    cases h
    have hbits := atLeastWord_le m
    have hpos : 0 < (atLeastWord m).toNat := by omega
    exact ⟨⟨by simp, hpos, Nat.not_le.mp hsmall, clampHashes_pos k⟩, hbits, clampHashes_le k⟩

section Hashing
variable (sip : List UInt8 → UInt64 → UInt64)

/-- Every index a sized filter computes is one of its bits, and the byte that holds it exists. -/
theorem hashIndex_room (f : BloomFilter) (h : f.Sized) (key : List UInt8) (seed : UInt32) :
    ∃ bit, f.hashIndex sip key seed = .ok bit ∧ bit.toNat < f.numBits.toNat ∧
      bit.toNat / 8 < f.bits.length := by
  have hseed : UInt32.ofNat seed.toNat = seed := UInt32.ofNat_toNat
  have hok := hashIndex_ok sip f h key seed.toNat
  have hroom := index_room sip f h key seed.toNat
  rw [hseed] at hok
  refine ⟨f.index sip key seed.toNat, hok, ?_, hroom⟩
  simp only [BloomFilter.index, UInt64.toNat_mod]
  apply Nat.mod_lt
  exact h.pos

theorem contains_mono (f g : BloomFilter) (h : f.Sized) (hg : f.Grown g) (key : List UInt8)
    (hc : f.contains sip key = .ok true) : g.contains sip key = .ok true := by
  rw [contains_eq sip f h key] at hc
  have hall : ∀ i ∈ List.range f.numHashes.toNat,
      bitAt f.bits (f.index sip key i).toNat = true :=
    List.all_eq_true.mp (Except.ok.inj hc)
  rw [contains_eq sip g hg.sized key, hg.numHashes]
  congr 1
  rw [List.all_eq_true]
  intro i hi
  rw [index_eq sip f g hg.numBits]
  apply hg.bits
  apply hall i hi

/-- A filter as `new` builds it, after any insertions, comes back from its file as it was: with
every inserted key, every index in its bit array, and nothing lost by inserting more. -/
theorem inserted_keys_found (m : UInt64) (hashes : UInt32) (f : BloomFilter)
    (keys : List (List UInt8)) (hbuild : BloomFilter.build m hashes = .ok f) :
    (64 ≤ f.numBits.toNat ∧ 1 ≤ f.numHashes.toNat ∧ f.numHashes.toNat ≤ 16) ∧
    ∃ g, f.insertAll sip keys = .ok g ∧
      g.numBits = f.numBits ∧ g.numHashes = f.numHashes ∧
      fromBytes g.toBytes = .ok (some g) ∧
      (∀ key ∈ keys, g.contains sip key = .ok true) ∧
      (∀ key seed, ∃ bit, g.hashIndex sip key seed = .ok bit ∧
        bit.toNat < g.numBits.toNat ∧ bit.toNat / 8 < g.bits.length) ∧
      ∀ more, ∃ g', g.insertAll sip more = .ok g' ∧
        ∀ key, g.contains sip key = .ok true → g'.contains sip key = .ok true := by
  obtain ⟨hsized, hbits, hhashes⟩ := build_ok m hashes f hbuild
  obtain ⟨g, hins, hgrown, hkeys⟩ := insertAll_ok sip f hsized keys
  have hg := hgrown.sized
  refine ⟨⟨hbits, hsized.hashes, hhashes⟩, g, hins, hgrown.numBits, hgrown.numHashes,
    fromBytes_toBytes g hg, hkeys, hashIndex_room sip g hg, ?_⟩
  intro more
  obtain ⟨g', hins', hgrown', -⟩ := insertAll_ok sip g hg more
  refine ⟨g', hins', ?_⟩
  intro key hkey
  apply contains_mono sip g g' hg hgrown' key hkey

end Hashing

/-- A hundred bits do not fill their thirteen bytes; two keys inserted, one of them empty. -/
theorem inserted_keys_found_hundred :
    BloomFilter.build 100 7 = .ok ⟨List.replicate 13 0, 100, 7⟩ ∧
    ∃ g, (BloomFilter.mk (List.replicate 13 0) 100 7).insertAll (fun _ seed => seed)
        [[1, 2], []] = .ok g ∧
      fromBytes g.toBytes = .ok (some g) ∧
      g.contains (fun _ seed => seed) [1, 2] = .ok true := by
  have hbuild : BloomFilter.build 100 7 = .ok ⟨List.replicate 13 0, 100, 7⟩ := by decide
  obtain ⟨-, g, hins, -, -, hbytes, hkeys, -⟩ :=
    inserted_keys_found (fun _ seed => seed) 100 7 _ [[1, 2], []] hbuild
  exact ⟨hbuild, g, hins, hbytes, hkeys [1, 2] (by simp)⟩

/-! ### Decoding arbitrary bytes -/

section Decoding
variable (sip : List UInt8 → UInt64 → UInt64)

/-- The header fields of a bloom file, read by `from_bytes` once twelve bytes are there. -/
def headerBits (data : List UInt8) : UInt64 := UInt64.ofNat (fromLe (data.take 8))

def headerHashes (data : List UInt8) : UInt32 :=
  UInt32.ofNat (fromLe ((data.drop 8).take 4))

/-- Both loops return, for every key. -/
def BloomFilter.Usable (f : BloomFilter) : Prop :=
  ∀ key, (∃ found, f.contains sip key = .ok found) ∧ ∃ g, f.insert sip key = .ok g

/-- Decoding returns, and a filter that it returns can be used. -/
def DecodesSafely (data : List UInt8) : Prop :=
  ∃ r, fromBytes data = .ok r ∧ ∀ f, r = some f → f.Usable sip

theorem usable_of_sized (f : BloomFilter) (h : f.Sized) : f.Usable sip := by
  intro key
  obtain ⟨g, hins, -, -⟩ := insert_ok sip f h key
  exact ⟨⟨_, contains_eq sip f h key⟩, g, hins⟩

theorem usable_of_no_hashes (f : BloomFilter) (h : f.numHashes = 0) : f.Usable sip := by
  intro key
  refine ⟨⟨true, ?_⟩, f, ?_⟩
  · rw [BloomFilter.contains, h]
    rfl
  · rw [BloomFilter.insert, h]
    rfl

theorem contains_no_bits (f : BloomFilter) (hbits : f.numBits = 0) (hhashes : f.numHashes ≠ 0)
    (key : List UInt8) : f.contains sip key = .error .divideByZero := by
  have hpos : f.numHashes.toNat ≠ 0 := by
    intro he
    apply hhashes
    exact UInt32.toNat_inj.mp he
  obtain ⟨n, hn⟩ := Nat.exists_eq_succ_of_ne_zero hpos
  simp only [BloomFilter.contains, hn, List.range_succ_eq_map, List.allM,
    BloomFilter.hashIndex, hbits, if_true]
  rfl

theorem fromBytes_overflow (data : List UInt8) (hlen : 12 ≤ data.length)
    (h : 2 ^ 64 ≤ (headerBits data).toNat + 7) : fromBytes data = .error .overflow := by
  have hshort : ¬ data.length < 12 := by omega
  rw [headerBits] at h
  simp only [fromBytes, hshort, if_false, h, if_true]

/-- Decoding within the range of `u64` returns nothing, or a filter with the header's fields
and all the bytes they ask for. -/
theorem fromBytes_fits (data : List UInt8) (hlen : 12 ≤ data.length)
    (h : (headerBits data).toNat + 7 < 2 ^ 64) :
    fromBytes data =
      .ok (if data.length < 12 + ((headerBits data).toNat + 7) / 8 then none
        else some ⟨(data.drop 12).take (((headerBits data).toNat + 7) / 8), headerBits data,
          headerHashes data⟩) := by
  have hshort : ¬ data.length < 12 := by omega
  have hfits : ¬ 2 ^ 64 ≤ (UInt64.ofNat (fromLe (data.take 8))).toNat + 7 := by
    rw [headerBits] at h
    omega
  simp only [fromBytes, hshort, if_false, hfits, headerBits, headerHashes]
  exact (apply_ite Except.ok _ _ _).symm

theorem decodesSafely_of_header (data : List UInt8) (hlen : 12 ≤ data.length)
    (hfits : (headerBits data).toNat + 7 < 2 ^ 64)
    (hhash : headerBits data ≠ 0 ∨ headerHashes data = 0) : DecodesSafely sip data := by
  refine ⟨_, fromBytes_fits data hlen hfits, ?_⟩
  intro f hf
  split at hf
  · cases hf
  · rename_i hroom
    cases hf
    by_cases hz : headerHashes data = 0
    · exact usable_of_no_hashes sip _ hz
    · apply usable_of_sized
      have hbits : headerBits data ≠ 0 := hhash.resolve_right hz
      refine ⟨?_, ?_, hfits, ?_⟩
      · simp only [List.length_take, List.length_drop]
        omega
      · apply Nat.pos_of_ne_zero
        intro he
        exact hbits (UInt64.toNat_inj.mp he)
      · apply Nat.pos_of_ne_zero
        intro he
        exact hz (UInt32.toNat_inj.mp he)

theorem fromBytes_no_bits (data : List UInt8) (hlen : 12 ≤ data.length)
    (hbits : headerBits data = 0) :
    fromBytes data = .ok (some ⟨[], 0, headerHashes data⟩) := by
  have hfits : (headerBits data).toNat + 7 < 2 ^ 64 := by
    rw [hbits]
    decide
  have hroom : ¬ data.length < 12 + ((0 : UInt64).toNat + 7) / 8 := by
    simp
    omega
  rw [fromBytes_fits data hlen hfits, hbits, if_neg hroom]
  simp

theorem decodesSafely_short (data : List UInt8) (h : data.length < 12) :
    DecodesSafely sip data := by
  have hnone : fromBytes data = .ok none := by simp only [fromBytes, h, if_true]
  refine ⟨none, hnone, ?_⟩
  intro f hf
  cases hf

theorem not_decodesSafely_overflow (data : List UInt8) (hlen : 12 ≤ data.length)
    (h : 2 ^ 64 ≤ (headerBits data).toNat + 7) : ¬ DecodesSafely sip data := by
  intro hsafe
  obtain ⟨r, hr, -⟩ := hsafe
  rw [fromBytes_overflow data hlen h] at hr
  cases hr

theorem not_decodesSafely_no_bits (data : List UInt8) (hlen : 12 ≤ data.length)
    (hbits : headerBits data = 0) (hhashes : headerHashes data ≠ 0) :
    ¬ DecodesSafely sip data := by
  intro hsafe
  obtain ⟨r, hr, husable⟩ := hsafe
  rw [fromBytes_no_bits data hlen hbits] at hr
  obtain ⟨⟨found, hfound⟩, -⟩ := husable _ (Except.ok.inj hr).symm []
  rw [contains_no_bits sip _ rfl hhashes] at hfound
  cases hfound

/-- What decoding any bytes needs to be safe: no header at all, or one whose rounding does not
overflow and whose modulus is not zero when there is a hash to compute. -/
theorem decoding_safe_iff (data : List UInt8) :
    DecodesSafely sip data ↔
      data.length < 12 ∨
        ((headerBits data).toNat + 7 < 2 ^ 64 ∧
          (headerBits data ≠ 0 ∨ headerHashes data = 0)) := by
  by_cases hlen : data.length < 12
  · exact iff_of_true (decodesSafely_short sip data hlen) (.inl hlen)
  have hlen' : 12 ≤ data.length := by omega
  by_cases hover : 2 ^ 64 ≤ (headerBits data).toNat + 7
  · refine iff_of_false (not_decodesSafely_overflow sip data hlen' hover) ?_
    omega
  by_cases hhash : headerBits data ≠ 0 ∨ headerHashes data = 0
  · have hfits : (headerBits data).toNat + 7 < 2 ^ 64 := by omega
    exact iff_of_true (decodesSafely_of_header sip data hlen' hfits hhash)
      (.inr ⟨hfits, hhash⟩)
  · obtain ⟨hbits, hhashes⟩ := not_or.mp hhash
    refine iff_of_false (not_decodesSafely_no_bits sip data hlen' (not_not.mp hbits) hhashes) ?_
    intro h
    exact hhash (h.resolve_left hlen).2

end Decoding

/-- Twelve bytes that announce one hash over no bits decode, and every lookup and insertion then
divides by zero; eight bytes of ones overflow while the size is rounded up. -/
theorem decoding_crashes :
    (fromBytes [0, 0, 0, 0, 0, 0, 0, 0, 1, 0, 0, 0] = .ok (some ⟨[], 0, 1⟩) ∧
      ∀ sip key, (BloomFilter.mk [] 0 1).contains sip key = .error .divideByZero ∧
        (BloomFilter.mk [] 0 1).insert sip key = .error .divideByZero) ∧
    fromBytes [255, 255, 255, 255, 255, 255, 255, 255, 1, 0, 0, 0] = .error .overflow := by
  refine ⟨⟨by decide, ?_⟩, by decide⟩
  intro sip key
  exact ⟨rfl, rfl⟩

end InfraLens.Bloom
