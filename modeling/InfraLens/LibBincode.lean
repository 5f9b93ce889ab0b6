import InfraLens.LibBytes
import Mathlib.Data.List.Basic

/-! A fixed-width, length-prefixed, not self-describing binary format (bincode
1.3 with its default options) as composable codecs. A codec knows which values
its reader gives back; every other value makes the reader fail, never misread. -/
namespace InfraLens.LibBincode
open LibBytes
variable {α β : Type}

structure Codec (α : Type) where
  encode : α → List UInt8
  decode : List UInt8 → Option (α × List UInt8)
  Readable : α → Prop
  decode_readable : ∀ a rest, Readable a → decode (encode a ++ rest) = some (a, rest)
  decode_unreadable : ∀ a rest, ¬ Readable a → decode (encode a ++ rest) = none

/-- An unsigned integer type of `n` bytes, seen through its value. -/
def Codec.fixed (n : Nat) (toNat : α → Nat) (ofNat : Nat → α)
    (hlt : ∀ a, toNat a < 256 ^ n) (hof : ∀ a, ofNat (toNat a) = a) : Codec α where
  encode a := leBytes n (toNat a)
  decode bs := match readExact n bs with
    | none => none
    | some (u, rest) => some (ofNat (fromLe u), rest)
  Readable _ := True
  decode_readable := by
    intro a rest _
    have h := readExact_append (leBytes n (toNat a)) rest
    rw [leBytes_length] at h
    simp [h, fromLe_leBytes_of_lt n (toNat a) (hlt a), hof]
  decode_unreadable := by
    intro a rest h
    exact absurd trivial h

def u8 : Codec UInt8 :=
  .fixed 1 UInt8.toNat UInt8.ofNat (fun a => by simpa using a.toNat_lt) (by simp)
def u32 : Codec UInt32 :=
  .fixed 4 UInt32.toNat UInt32.ofNat (fun a => by simpa using a.toNat_lt) (by simp)
def u64 : Codec UInt64 :=
  .fixed 8 UInt64.toNat UInt64.ofNat (fun a => by simpa using a.toNat_lt) (by simp)

def Codec.pair (c : Codec α) (d : Codec β) : Codec (α × β) where
  encode p := c.encode p.1 ++ d.encode p.2
  decode bs := match c.decode bs with
    | none => none
    | some (a, rest) => match d.decode rest with
      | none => none
      | some (b, rest') => some ((a, b), rest')
  Readable p := c.Readable p.1 ∧ d.Readable p.2
  decode_readable := by
    intro p rest h
    simp [List.append_assoc, c.decode_readable _ _ h.1, d.decode_readable _ _ h.2]
  decode_unreadable := by
    intro p rest h
    by_cases hc : c.Readable p.1
    · have hd : ¬ d.Readable p.2 := fun hd => h ⟨hc, hd⟩
      simp [List.append_assoc, c.decode_readable _ _ hc, d.decode_unreadable _ _ hd]
    · simp [List.append_assoc, c.decode_unreadable _ _ hc]

/-- A type read and written through another one. -/
def Codec.via (c : Codec α) (pack : α → β) (unpack : β → α)
    (h : ∀ b, pack (unpack b) = b) : Codec β where
  encode b := c.encode (unpack b)
  decode bs := match c.decode bs with
    | none => none
    | some (a, rest) => some (pack a, rest)
  Readable b := c.Readable (unpack b)
  decode_readable := by
    intro b rest hb
    simp [c.decode_readable _ _ hb, h]
  decode_unreadable := by
    intro b rest hb
    simp [c.decode_unreadable _ _ hb]

def i32 : Codec Int32 := u32.via UInt32.toInt32 Int32.toUInt32 (by simp)
def i64 : Codec Int64 := u64.via UInt64.toInt64 Int64.toUInt64 (by simp)

/-- One byte, 0 or 1; any other byte is an invalid encoding. -/
def boolean : Codec Bool where
  encode b := [if b then 1 else 0]
  decode
    | [] => none
    | t :: rest => if t = 0 then some (false, rest) else if t = 1 then some (true, rest) else none
  Readable _ := True
  decode_readable := by
    intro b rest _
    cases b <;> rfl
  decode_unreadable := by
    intro b rest h
    exact absurd trivial h

def Codec.option (c : Codec α) : Codec (Option α) where
  encode
    | none => [0]
    | some a => 1 :: c.encode a
  decode
    | [] => none
    | t :: rest =>
      if t = 0 then some (none, rest)
      else if t = 1 then match c.decode rest with
        | none => none
        | some (a, rest') => some (some a, rest')
      else none
  Readable o := ∀ a ∈ o, c.Readable a
  decode_readable := by
    intro o rest h
    cases o with
    | none => simp
    | some a => simp [c.decode_readable a rest (h a rfl)]
  decode_unreadable := by
    intro o rest h
    cases o with
    | none => simp at h
    | some a => simp [c.decode_unreadable a rest (by simpa using h)]

def decodeN (c : Codec α) : Nat → List UInt8 → Option (List α × List UInt8)
  | 0, bs => some ([], bs)
  | n+1, bs => match c.decode bs with
    | none => none
    | some (a, rest) => match decodeN c n rest with
      | none => none
      | some (as, rest') => some (a :: as, rest')

theorem decodeN_readable (c : Codec α) (as : List α) (rest : List UInt8)
    (h : ∀ a ∈ as, c.Readable a) :
    decodeN c as.length (as.flatMap c.encode ++ rest) = some (as, rest) := by
  induction as with
  | nil => rfl
  | cons a as ih =>
    have ha := c.decode_readable a (as.flatMap c.encode ++ rest) (h a (by simp))
    have hi := ih (fun b hb => h b (List.mem_cons_of_mem a hb))
    simp [decodeN, List.append_assoc, ha, hi]

theorem decodeN_unreadable (c : Codec α) (as : List α) (rest : List UInt8)
    (h : ¬ ∀ a ∈ as, c.Readable a) :
    decodeN c as.length (as.flatMap c.encode ++ rest) = none := by
  induction as with
  | nil => simp at h
  | cons a as ih =>
    by_cases ha : c.Readable a
    · have hr : ¬ ∀ b ∈ as, c.Readable b := by
        intro hb
        apply h
        intro b hm
        obtain he | hm := List.mem_cons.mp hm
        · exact he ▸ ha
        · exact hb b hm
      simp [decodeN, List.append_assoc,
        c.decode_readable a (as.flatMap c.encode ++ rest) ha, ih hr]
    · simp [decodeN, List.append_assoc,
        c.decode_unreadable a (as.flatMap c.encode ++ rest) ha]

theorem decodeN_length (c : Codec α) (n : Nat) (bs : List UInt8) (as : List α)
    (rest : List UInt8) (h : decodeN c n bs = some (as, rest)) : as.length = n := by
  induction n generalizing bs as rest with
  | zero =>
    have he : as = [] := by
      simp only [decodeN, Option.some.injEq, Prod.mk.injEq] at h
      exact h.1.symm
    simp [he]
  | succ n ih =>
    simp only [decodeN] at h
    split at h
    · contradiction
    · split at h
      · contradiction
      · rename_i hn
        simp only [Option.some.injEq, Prod.mk.injEq] at h
        rw [← h.1, List.length_cons, ih _ _ _ hn]

/-- A growable array: its length fits the machine word that counts it. -/
def Vec (α : Type) := {l : List α // l.length < 2 ^ 64}

def Vec.empty : Vec α := ⟨[], Nat.two_pow_pos 64⟩

def Vec.ofList (l : List α) : Vec α := if h : l.length < 2 ^ 64 then ⟨l, h⟩ else Vec.empty

theorem toNat_count (n : Nat) (h : n < 2 ^ 64) : (UInt64.ofNat n).toNat = n := by
  simpa using Nat.mod_eq_of_lt h

/-- Element count, then the elements. -/
def Codec.vec (c : Codec α) : Codec (Vec α) where
  encode v := u64.encode (UInt64.ofNat v.1.length) ++ v.1.flatMap c.encode
  decode bs := match u64.decode bs with
    | none => none
    | some (n, rest) => match h : decodeN c n.toNat rest with
      | none => none
      | some (as, rest') =>
        some (⟨as, by rw [decodeN_length c n.toNat rest as rest' h]; exact n.toNat_lt⟩, rest')
  Readable v := ∀ a ∈ v.1, c.Readable a
  decode_readable := by
    intro v rest h
    have hn := toNat_count v.1.length v.2
    have hd := decodeN_readable c v.1 rest h
    rw [← hn] at hd
    rw [List.append_assoc, u64.decode_readable _ _ trivial]
    simp only
    split
    · rename_i h'; rw [hd] at h'; contradiction
    · rename_i h'; rw [hd] at h'; cases h'; rfl
  decode_unreadable := by
    intro v rest h
    have hn := toNat_count v.1.length v.2
    have hd := decodeN_unreadable c v.1 rest h
    rw [← hn] at hd
    rw [List.append_assoc, u64.decode_readable _ _ trivial]
    simp only
    split
    · rfl
    · rename_i h'; rw [hd] at h'; contradiction

structure HashMap (κ ν : Type) where
  entries : List (κ × ν)
  nodup : (entries.map Prod.fst).Nodup
  bounded : entries.length < 2 ^ 64

def HashMap.empty {κ ν : Type} : HashMap κ ν := ⟨[], by simp, Nat.two_pow_pos 64⟩

/-- Insertion into a map under construction: a repeated key keeps its last value. -/
def putEntry {κ ν : Type} [DecidableEq κ] (m : List (κ × ν)) (e : κ × ν) : List (κ × ν) :=
  if e.1 ∈ m.map Prod.fst then m.map (fun x => if x.1 = e.1 then e else x) else m ++ [e]

theorem putEntry_nodup {κ ν : Type} [DecidableEq κ] (m : List (κ × ν)) (e : κ × ν)
    (h : (m.map Prod.fst).Nodup) : ((putEntry m e).map Prod.fst).Nodup := by
  unfold putEntry
  split
  · have hk : (m.map (fun x => if x.1 = e.1 then e else x)).map Prod.fst = m.map Prod.fst := by
      rw [List.map_map]
      apply List.map_congr_left
      intro x _
      by_cases hx : x.1 = e.1 <;> simp [hx]
    rw [hk]
    exact h
  · rename_i hn
    rw [List.map_append, List.nodup_append]
    refine ⟨h, by simp, ?_⟩
    intro a ha b hb hab
    simp only [List.map_cons, List.map_nil, List.mem_singleton] at hb
    exact hn (hb ▸ hab ▸ ha)

theorem putEntry_length_le {κ ν : Type} [DecidableEq κ] (m : List (κ × ν)) (e : κ × ν) :
    (putEntry m e).length ≤ m.length + 1 := by
  unfold putEntry
  split <;> simp

def putEntries {κ ν : Type} [DecidableEq κ] : List (κ × ν) → List (κ × ν) → List (κ × ν)
  | m, [] => m
  | m, e :: es => putEntries (putEntry m e) es

theorem putEntries_nodup {κ ν : Type} [DecidableEq κ] (m es : List (κ × ν))
    (h : (m.map Prod.fst).Nodup) : ((putEntries m es).map Prod.fst).Nodup := by
  induction es generalizing m with
  | nil => exact h
  | cons e es ih => exact ih _ (putEntry_nodup m e h)

theorem putEntries_length_le {κ ν : Type} [DecidableEq κ] (m es : List (κ × ν)) :
    (putEntries m es).length ≤ m.length + es.length := by
  induction es generalizing m with
  | nil => simp [putEntries]
  | cons e es ih =>
    have h := ih (putEntry m e)
    have hp := putEntry_length_le m e
    simp only [putEntries, List.length_cons]
    omega

theorem putEntries_of_nodup {κ ν : Type} [DecidableEq κ] (m es : List (κ × ν))
    (h : ((m ++ es).map Prod.fst).Nodup) : putEntries m es = m ++ es := by
  induction es generalizing m with
  | nil => simp [putEntries]
  | cons e es ih =>
    have hn : e.1 ∉ m.map Prod.fst := by
      intro hm
      rw [List.map_append, List.nodup_append] at h
      exact h.2.2 e.1 hm e.1 (by simp) rfl
    have hp : putEntry m e = m ++ [e] := by rw [putEntry, if_neg hn]
    rw [putEntries, hp, ih (m ++ [e]) (by simpa using h)]
    simp

/-- Entry count, then each key and its value. -/
def Codec.hashMap {κ ν : Type} [DecidableEq κ] (k : Codec κ) (v : Codec ν) :
    Codec (HashMap κ ν) where
  encode m := u64.encode (UInt64.ofNat m.entries.length) ++ m.entries.flatMap (k.pair v).encode
  decode bs := match u64.decode bs with
    | none => none
    | some (n, rest) => match h : decodeN (k.pair v) n.toNat rest with
      | none => none
      | some (es, rest') => some (⟨putEntries [] es, putEntries_nodup [] es (by simp), by
          have hl := putEntries_length_le [] es
          rw [decodeN_length _ n.toNat rest es rest' h] at hl
          have hn := n.toNat_lt
          simp only [List.length_nil] at hl
          omega⟩, rest')
  Readable m := ∀ e ∈ m.entries, k.Readable e.1 ∧ v.Readable e.2
  decode_readable := by
    intro m rest h
    have hn := toNat_count m.entries.length m.bounded
    have hd := decodeN_readable (k.pair v) m.entries rest h
    rw [← hn] at hd
    rw [List.append_assoc, u64.decode_readable _ _ trivial]
    simp only
    split
    · rename_i h'; rw [hd] at h'; contradiction
    · rename_i h'
      rw [hd] at h'
      cases h'
      have hp := putEntries_of_nodup [] m.entries (by simpa using m.nodup)
      simp only [hp, List.nil_append]
  decode_unreadable := by
    intro m rest h
    have hn := toNat_count m.entries.length m.bounded
    have hd := decodeN_unreadable (k.pair v) m.entries rest h
    rw [← hn] at hd
    rw [List.append_assoc, u64.decode_readable _ _ trivial]
    simp only
    split
    · rfl
    · rename_i h'; rw [hd] at h'; contradiction

/-- A fixed-size byte array is written without a length. -/
def Bytes (n : Nat) := {l : List UInt8 // l.length = n}

def bytes (n : Nat) : Codec (Bytes n) where
  encode b := b.1
  decode bs := if h : n ≤ bs.length then some (⟨bs.take n, by simp [h]⟩, bs.drop n) else none
  Readable _ := True
  decode_readable := by
    rintro ⟨l, rfl⟩ rest _
    simp
  decode_unreadable := by
    intro b rest h
    exact absurd trivial h

def unit : Codec Unit where
  encode _ := []
  decode bs := some ((), bs)
  Readable _ := True
  decode_readable := by
    intro a rest _
    rfl
  decode_unreadable := by
    intro a rest h
    exact absurd trivial h

/-- The fields of variant number `i`; an index without a variant is an error. -/
def decodeFields {n : Nat} {F : Fin n → Type} (c : (k : Fin n) → Codec (F k)) (i : Nat)
    (bs : List UInt8) : Option ((Σ k, F k) × List UInt8) :=
  if h : i < n then match (c ⟨i, h⟩).decode bs with
    | none => none
    | some (a, rest) => some (⟨⟨i, h⟩, a⟩, rest)
  else none

/-- An enumeration: the variant's index as a 32-bit word, then its fields. -/
def Codec.variant {n : Nat} (hn : n ≤ 2 ^ 32) {F : Fin n → Type} (c : (k : Fin n) → Codec (F k)) :
    Codec (Σ k, F k) where
  encode x := u32.encode (UInt32.ofNat x.1) ++ (c x.1).encode x.2
  decode bs := match u32.decode bs with
    | none => none
    | some (t, rest) => decodeFields c t.toNat rest
  Readable x := (c x.1).Readable x.2
  decode_readable := by
    rintro ⟨⟨i, hi⟩, x⟩ rest h
    have ht : (UInt32.ofNat i).toNat = i := by
      simpa using Nat.mod_eq_of_lt (show i < 2 ^ 32 by omega)
    rw [List.append_assoc, u32.decode_readable _ _ trivial]
    change decodeFields c (UInt32.ofNat i).toNat ((c ⟨i, hi⟩).encode x ++ rest) = _
    rw [ht, decodeFields, dif_pos hi, (c ⟨i, hi⟩).decode_readable x rest h]
  decode_unreadable := by
    rintro ⟨⟨i, hi⟩, x⟩ rest h
    have ht : (UInt32.ofNat i).toNat = i := by
      simpa using Nat.mod_eq_of_lt (show i < 2 ^ 32 by omega)
    rw [List.append_assoc, u32.decode_readable _ _ trivial]
    change decodeFields c (UInt32.ofNat i).toNat ((c ⟨i, hi⟩).encode x ++ rest) = _
    rw [ht, decodeFields, dif_pos hi, (c ⟨i, hi⟩).decode_unreadable x rest h]

/-- A UTF-8 string whose byte length fits the machine word that counts it. -/
def Str := {s : String // s.toByteArray.size < 2 ^ 64}

instance : DecidableEq Str := inferInstanceAs (DecidableEq (Subtype _))

def Str.empty : Str := ⟨"", Nat.two_pow_pos 64⟩

def Str.ofString (s : String) : Str :=
  if h : s.toByteArray.size < 2 ^ 64 then ⟨s, h⟩ else Str.empty

theorem Str.ofString_val (s : Str) : Str.ofString s.1 = s := dif_pos s.2

def Str.utf8 (s : Str) : List UInt8 := s.1.toByteArray.data.toList

/-- Byte count, then the bytes; bytes that are not UTF-8 are an error. -/
def str : Codec Str where
  encode s := u64.encode (UInt64.ofNat s.utf8.length) ++ s.utf8
  decode bs := match u64.decode bs with
    | none => none
    | some (n, rest) => match h : readExact n.toNat rest with
      | none => none
      | some (u, rest') =>
        if hu : (ByteArray.mk u.toArray).IsValidUTF8 then
          some (⟨String.fromUTF8 ⟨u.toArray⟩ hu, by
            unfold readExact at h
            split at h
            · cases h
              have := n.toNat_lt
              simp [String.fromUTF8, ByteArray.size]
              omega
            · contradiction⟩, rest')
        else none
  Readable _ := True
  decode_readable := by
    intro s rest _
    have hn := toNat_count s.utf8.length s.2
    have hr := readExact_append s.utf8 rest
    rw [← hn] at hr
    have hb : (ByteArray.mk s.utf8.toArray) = s.1.toByteArray := by simp [Str.utf8]
    rw [List.append_assoc, u64.decode_readable _ _ trivial]
    simp only
    split
    · rename_i h'; rw [hr] at h'; contradiction
    · rename_i h'
      rw [hr] at h'
      cases h'
      have hv : (ByteArray.mk s.utf8.toArray).IsValidUTF8 := hb ▸ s.1.isValidUTF8
      rw [dif_pos hv]
      have he : String.fromUTF8 ⟨s.utf8.toArray⟩ hv = s.1 := by
        apply String.toByteArray_inj.mp
        exact hb
      simp only [he]
      rfl
  decode_unreadable := by
    intro s rest h
    exact absurd trivial h

/-! What each codec reads back, as rewriting rules. -/

@[simp] theorem u64_readable (a : UInt64) : u64.Readable a := trivial
@[simp] theorem i32_readable (a : Int32) : i32.Readable a := trivial
@[simp] theorem i64_readable (a : Int64) : i64.Readable a := trivial
@[simp] theorem bytes_readable (n : Nat) (b : Bytes n) : (bytes n).Readable b := trivial
@[simp] theorem str_readable (s : Str) : str.Readable s := trivial

@[simp] theorem pair_readable (c : Codec α) (d : Codec β) (p : α × β) :
    (c.pair d).Readable p ↔ c.Readable p.1 ∧ d.Readable p.2 := Iff.rfl

@[simp] theorem via_readable (c : Codec α) (pack : α → β) (unpack : β → α)
    (h : ∀ b, pack (unpack b) = b) (b : β) :
    (c.via pack unpack h).Readable b ↔ c.Readable (unpack b) := Iff.rfl

@[simp] theorem option_readable (c : Codec α) (o : Option α) :
    c.option.Readable o ↔ ∀ a ∈ o, c.Readable a := Iff.rfl

@[simp] theorem vec_readable (c : Codec α) (v : Vec α) :
    c.vec.Readable v ↔ ∀ a ∈ v.1, c.Readable a := Iff.rfl

end InfraLens.LibBincode
