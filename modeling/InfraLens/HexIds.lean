import InfraLens.OtlpJson

/-! Which texts `hex_to_16` and `hex_to_8` (json_decoder.rs) read exactly. Texts are sliced by
bytes, and `from_str_radix` takes a sign, so both characters that are not ASCII and plus signs
lead away from the digits. -/
namespace InfraLens.Otlp
open LibText LibBincode

/-! ### Digits -/

def hexValue (c : Char) : Option Nat :=
  if '0' ≤ c ∧ c ≤ '9' then some (c.toNat - 48)
  else if 'a' ≤ c ∧ c ≤ 'f' then some (c.toNat - 87)
  else if 'A' ≤ c ∧ c ≤ 'F' then some (c.toNat - 55)
  else none

def spelled : List Char → Option (List UInt8)
  | [] => some []
  | [_] => none
  | c :: d :: cs => do
    let high ← hexValue c
    let low ← hexValue d
    let bytes ← spelled cs
    pure (UInt8.ofNat (16 * high + low) :: bytes)

theorem char_le_iff (c d : Char) : c ≤ d ↔ c.toNat ≤ d.toNat := Iff.rfl

theorem hexValue_ascii (c : Char) (v : Nat) (h : hexValue c = some v) : c.toNat < 128 := by
  simp only [hexValue, char_le_iff, Char.reduceToNat] at h
  split_ifs at h <;> omega

theorem hexValue_lt (c : Char) (v : Nat) (h : hexValue c = some v) : v < 16 := by
  simp only [hexValue, char_le_iff, Char.reduceToNat] at h
  split_ifs at h
  all_goals
    cases h
    omega

theorem hexDigit_asciiByte (c : Char) (h : c.toNat < 128) :
    hexDigit (asciiByte c) = hexValue c := by
  have hbyte := toNat_asciiByte c h
  simp only [hexDigit, hexValue, char_le_iff, UInt8.le_iff_toNat_le, hbyte, Char.reduceToNat,
    UInt8.reduceToNat]

/-- What `from_str_radix` makes of two characters. -/
def pairByte (c d : Char) : Option UInt8 :=
  if c = '+' then (hexValue d).map UInt8.ofNat
  else (hexValue c).bind fun high => (hexValue d).map fun low => UInt8.ofNat (16 * high + low)

theorem parseHexU8_pair (c d : Char) (hc : c.toNat < 128) (hd : d.toNat < 128) :
    parseHexU8 [asciiByte c, asciiByte d] = pairByte c d := by
  by_cases hplus : c = '+'
  · have hbyte : asciiByte c = 43 := by
      rw [hplus]
      rfl
    rw [pairByte, if_pos hplus, parseHexU8, hbyte]
    simp only [List.head?_cons, if_true, List.tail_cons, List.mapM_cons, List.mapM_nil,
      hexDigit_asciiByte d hd]
    cases hv : hexValue d with
    | none => rfl
    | some v =>
      have hlt := hexValue_lt d v hv
      simp
      omega
  · have hbyte : asciiByte c ≠ 43 := by
      intro hb
      have hnat := toNat_asciiByte c hc
      rw [hb] at hnat
      exact hplus (Char.ext (UInt32.toNat_inj.mp hnat.symm))
    simp only [parseHexU8, List.head?_cons, Option.some.injEq, hbyte, if_false, pairByte, hplus,
      List.mapM_cons, List.mapM_nil, hexDigit_asciiByte c hc, hexDigit_asciiByte d hd]
    cases hv : hexValue c with
    | none => rfl
    | some v =>
      cases hw : hexValue d with
      | none => rfl
      | some w =>
        have hlt := hexValue_lt c v hv
        have hlt' := hexValue_lt d w hw
        simp
        omega

theorem pairByte_ascii (c d : Char) (b : UInt8) (h : pairByte c d = some b) :
    c.toNat < 128 ∧ d.toNat < 128 := by
  unfold pairByte at h
  split at h
  next hplus =>
    obtain ⟨v, hv, _⟩ := Option.map_eq_some_iff.mp h
    exact ⟨by rw [hplus]; decide, hexValue_ascii d v hv⟩
  next hplus =>
    obtain ⟨v, hv, hrest⟩ := Option.bind_eq_some_iff.mp h
    obtain ⟨w, hw, _⟩ := Option.map_eq_some_iff.mp hrest
    exact ⟨hexValue_ascii c v hv, hexValue_ascii d w hw⟩

/-! ### Slices of two bytes -/

def straddles : List Char → Bool
  | [] => false
  | [c] => 3 ≤ c.utf8Size
  | c :: d :: _ => 3 ≤ c.utf8Size || (c.utf8Size == 1 && 2 ≤ d.utf8Size)

/-- Every pair is taken, so the whole text is read. -/
def taken : List Char → Bool
  | [] => true
  | [_] => false
  | c :: d :: cs => (pairByte c d).isSome && taken cs

/-- After pairs that are taken comes a slice that ends inside a character. -/
def cut : List Char → Bool
  | c :: d :: cs => straddles (c :: d :: cs) || ((pairByte c d).isSome && cut cs)
  | cs => straddles cs

theorem utf8_head (cs : List Char) : (utf8 cs).head?.any isContinuation = false := by
  cases cs with
  | nil => rfl
  | cons c cs =>
    obtain ⟨b, bs, hbytes, hb, _⟩ := utf8EncodeChar_shape c
    rw [utf8_cons, hbytes]
    exact hb

theorem utf8Size_ascii (c : Char) : c.utf8Size = 1 ↔ c.toNat < 128 := by
  rw [Char.utf8Size_eq_one_iff, UInt32.le_iff_toNat_le]
  change c.toNat ≤ 127 ↔ _
  omega

theorem pairByte_high (c d : Char) (h : c.utf8Size ≠ 1 ∨ d.utf8Size ≠ 1) : pairByte c d = none := by
  cases hb : pairByte c d with
  | none => rfl
  | some b =>
    obtain ⟨hc, hd⟩ := pairByte_ascii c d b hb
    have hcsize := (utf8Size_ascii c).mpr hc
    have hdsize := (utf8Size_ascii d).mpr hd
    omega

theorem parseHexU8_high (a b : UInt8) (h : 128 ≤ a.toNat) : parseHexU8 [a, b] = none := by
  have hplus : ¬ (a = 43) := by
    rintro rfl
    exact absurd h (by decide)
  have hdigit : hexDigit a = none := by
    simp only [hexDigit, UInt8.le_iff_toNat_le, UInt8.reduceToNat]
    split_ifs
    all_goals first | omega | rfl
  simp [parseHexU8, hplus, hdigit]

theorem hexPairs_long (c : Char) (cs : List Char) (h : 2 ≤ c.utf8Size) :
    hexPairs (utf8 (c :: cs)) =
      if 3 ≤ c.utf8Size then .error .charBoundary else .ok none := by
  obtain ⟨b, bs, hbytes, hb, hcont, hsize⟩ := utf8EncodeChar_shape c
  have hhigh : 128 ≤ b.toNat := by
    refine utf8EncodeChar_high c ?_ b (by rw [hbytes]; exact List.mem_cons_self)
    have hne := (utf8Size_ascii c).not.mp (by omega)
    omega
  cases bs with
  | nil => simp at hsize; omega
  | cons b' bs =>
    rw [utf8_cons, hbytes]
    simp only [List.cons_append, hexPairs, hb, Bool.false_or, parseHexU8_high b b' hhigh]
    cases bs with
    | nil =>
      have htwo : ¬ 3 ≤ c.utf8Size := by
        simp at hsize
        omega
      rw [List.nil_append, utf8_head, if_neg htwo]
      rfl
    | cons b'' bs =>
      have hthree : 3 ≤ c.utf8Size := by
        simp at hsize
        omega
      have hcut : isContinuation b'' = true := hcont b'' (by simp)
      simp [hcut, hthree]

theorem hexPairs_cons (c d : Char) (cs : List Char) :
    hexPairs (utf8 (c :: d :: cs)) =
      if straddles (c :: d :: cs) then .error .charBoundary
      else (pairByte c d).elim (.ok none) fun b =>
        (hexPairs (utf8 cs)).map (Option.map (b :: ·)) := by
  by_cases hc : c.utf8Size = 1
  · have hascii := (utf8Size_ascii c).mp hc
    obtain ⟨b, bs, hbytes, hb, hcont, hsize⟩ := utf8EncodeChar_shape d
    have hstart : isContinuation (asciiByte c) = false := by
      have hnat := toNat_asciiByte c hascii
      simp [isContinuation, UInt8.le_iff_toNat_le]
      omega
    have htext : utf8 (c :: d :: cs) = asciiByte c :: b :: (bs ++ utf8 cs) := by
      rw [utf8_cons, utf8_cons, utf8EncodeChar_ascii c hascii, hbytes]
      rfl
    rw [htext, hexPairs, hstart, Bool.false_or]
    cases bs with
    | nil =>
      have hd : d.utf8Size = 1 := by simpa using hsize.symm
      have hdascii := (utf8Size_ascii d).mp hd
      have hbyte : b = asciiByte d := by
        rw [utf8EncodeChar_ascii d hdascii] at hbytes
        exact (List.cons.inj hbytes).1.symm
      rw [List.nil_append, utf8_head, hbyte, parseHexU8_pair c d hascii hdascii]
      have hwhole : straddles (c :: d :: cs) = false := by simp [straddles, hc, hd]
      rw [hwhole]
      cases pairByte c d <;> rfl
    | cons b' bs =>
      have hd : 2 ≤ d.utf8Size := by
        simp at hsize
        omega
      have hcut : isContinuation b' = true := hcont b' (by simp)
      simp [straddles, hc, hd, hcut]
  · have hpos := c.utf8Size_pos
    rw [hexPairs_long c (d :: cs) (by omega), pairByte_high c d (.inl hc)]
    simp [straddles, hc]

/-! ### The whole text -/

theorem length_utf8_pair (c d : Char) (cs : List Char) (b : UInt8) (h : pairByte c d = some b) :
    (utf8 (c :: d :: cs)).length = (utf8 cs).length + 2 := by
  obtain ⟨hc, hd⟩ := pairByte_ascii c d b h
  rw [utf8_cons, utf8_cons, utf8EncodeChar_ascii c hc, utf8EncodeChar_ascii d hd]
  rfl

theorem straddles_pair (c d : Char) (cs : List Char) (b : UInt8) (h : pairByte c d = some b) :
    straddles (c :: d :: cs) = false := by
  obtain ⟨hc, hd⟩ := pairByte_ascii c d b h
  simp [straddles, (utf8Size_ascii c).mpr hc, (utf8Size_ascii d).mpr hd]

theorem hexPairs_pair (c d : Char) (cs : List Char) (b : UInt8) (h : pairByte c d = some b) :
    hexPairs (utf8 (c :: d :: cs)) = (hexPairs (utf8 cs)).map (Option.map (b :: ·)) := by
  rw [hexPairs_cons, straddles_pair c d cs b h, h]
  rfl

theorem hexPairs_not_taken (c d : Char) (cs : List Char) (h : pairByte c d = none) :
    hexPairs (utf8 (c :: d :: cs)) =
      if straddles (c :: d :: cs) then .error .charBoundary else .ok none := by
  rw [hexPairs_cons, h]
  rfl

theorem hexPairs_single (c : Char) (h : (utf8 [c]).length % 2 = 0) :
    hexPairs (utf8 [c]) = if straddles [c] then .error .charBoundary else .ok none := by
  have hlength : (utf8 [c]).length = c.utf8Size := by
    rw [utf8_cons, List.length_append, String.length_utf8EncodeChar]
    rfl
  have hpos := c.utf8Size_pos
  rw [hexPairs_long c [] (by omega)]
  simp [straddles]

theorem map_cons_error (b : UInt8) (r : Except Panic (Option (List UInt8))) :
    r.map (Option.map (b :: ·)) = .error .charBoundary ↔ r = .error .charBoundary := by
  cases r with
  | error e => exact Iff.rfl
  | ok o => exact ⟨fun h => (by cases h), fun h => (by cases h)⟩

theorem hexPairs_error_iff (cs : List Char) (h : (utf8 cs).length % 2 = 0) :
    hexPairs (utf8 cs) = .error .charBoundary ↔ cut cs = true := by
  induction cs using taken.induct with
  | case1 => exact ⟨fun h => (by cases h), fun h => (by cases h)⟩
  | case2 c =>
    rw [hexPairs_single c h, cut]
    · cases straddles [c] <;> simp
    · simp
  | case3 c d cs ih =>
    rw [cut]
    cases hb : pairByte c d with
    | none =>
      rw [hexPairs_not_taken c d cs hb]
      cases straddles (c :: d :: cs) <;> simp
    | some b =>
      rw [length_utf8_pair c d cs b hb] at h
      rw [hexPairs_pair c d cs b hb, map_cons_error, ih (by omega), straddles_pair c d cs b hb]
      simp

theorem hexPairs_some_iff (cs : List Char) (h : (utf8 cs).length % 2 = 0) :
    (∃ bs, hexPairs (utf8 cs) = .ok (some bs)) ↔ taken cs = true := by
  induction cs using taken.induct with
  | case1 => exact ⟨fun _ => rfl, fun _ => ⟨[], rfl⟩⟩
  | case2 c =>
    rw [hexPairs_single c h, taken]
    cases straddles [c] <;> simp
  | case3 c d cs ih =>
    rw [taken]
    cases hb : pairByte c d with
    | none =>
      rw [hexPairs_not_taken c d cs hb]
      cases straddles (c :: d :: cs) <;> simp
    | some b =>
      rw [length_utf8_pair c d cs b hb] at h
      rw [hexPairs_pair c d cs b hb, Option.isSome_some, Bool.true_and, ← ih (by omega)]
      cases hexPairs (utf8 cs) with
      | error e => simp [Except.map]
      | ok o => cases o <;> simp [Except.map]

theorem pairByte_digits (c d : Char) (h : c ≠ '+') :
    pairByte c d = (hexValue c).bind fun high => (hexValue d).map fun low =>
      UInt8.ofNat (16 * high + low) := if_neg h

theorem hexPairs_spelled (cs : List Char) (h : taken cs = true) (hplus : '+' ∉ cs) :
    hexPairs (utf8 cs) = .ok (spelled cs) := by
  induction cs using taken.induct with
  | case1 => rfl
  | case2 c => cases h
  | case3 c d cs ih =>
    rw [taken, Bool.and_eq_true, Option.isSome_iff_exists] at h
    obtain ⟨⟨b, hb⟩, hrest⟩ := h
    have hc : c ≠ '+' := fun he => hplus (by simp [he])
    rw [hexPairs_pair c d cs b hb, ih hrest fun hm => hplus (by simp [hm])]
    rw [pairByte_digits c d hc] at hb
    obtain ⟨high, hhigh, hb⟩ := Option.bind_eq_some_iff.mp hb
    obtain ⟨low, hlow, rfl⟩ := Option.map_eq_some_iff.mp hb
    simp only [spelled, hhigh, hlow]
    cases spelled cs <;> rfl

theorem taken_of_spelled (cs : List Char) (bs : List UInt8) (h : spelled cs = some bs) :
    taken cs = true ∧ '+' ∉ cs := by
  induction cs using taken.induct generalizing bs with
  | case1 => exact ⟨rfl, List.not_mem_nil⟩
  | case2 c => cases h
  | case3 c d cs ih =>
    simp only [spelled, Option.bind_eq_bind, Option.bind_eq_some_iff] at h
    obtain ⟨high, hhigh, low, hlow, bytes, hbytes, _⟩ := h
    obtain ⟨htaken, hplus⟩ := ih bytes hbytes
    have hc : c ≠ '+' := by
      rintro rfl
      cases hhigh
    have hd : d ≠ '+' := by
      rintro rfl
      cases hlow
    refine ⟨?_, by simp [hplus, hc.symm, hd.symm]⟩
    rw [taken, pairByte_digits c d hc, hhigh, hlow]
    exact htaken

/-- A text that is sliced inside a character, or read although it has a plus sign. -/
def misread (cs : List Char) : Bool := cut cs || (taken cs && cs.contains '+')

theorem hexPairs_exact_iff (cs : List Char) (h : (utf8 cs).length % 2 = 0) :
    hexPairs (utf8 cs) = .ok (spelled cs) ↔ misread cs = false := by
  have herror := hexPairs_error_iff cs h
  have hsome := hexPairs_some_iff cs h
  rw [misread, Bool.or_eq_false_iff]
  cases hr : hexPairs (utf8 cs) with
  | error e =>
    cases e
    simp [herror.mp hr]
  | ok r =>
    have hcut : cut cs = false := by
      rw [← Bool.not_eq_true, ← herror, hr]
      simp
    cases htaken : taken cs with
    | false =>
      have hspelled : spelled cs = none := by
        cases hs : spelled cs with
        | none => rfl
        | some bs =>
          rw [(taken_of_spelled cs bs hs).1] at htaken
          cases htaken
      cases r with
      | none => simp [hspelled, hcut]
      | some bs =>
        rw [hsome.mp ⟨bs, hr⟩] at htaken
        cases htaken
    | true =>
      by_cases hplus : '+' ∈ cs
      · obtain ⟨bs, hbs⟩ := hsome.mpr htaken
        have hspelled : spelled cs = none := by
          cases hs : spelled cs with
          | none => rfl
          | some bs' => exact absurd hplus (taken_of_spelled cs bs' hs).2
        rw [hr] at hbs
        cases hbs
        simp [hspelled, hplus]
      · have hread := hexPairs_spelled cs htaken hplus
        rw [hr] at hread
        simp [Except.ok.inj hread, hcut, hplus]

/-! ### Ids -/

theorem hexPairs_length (bytes bs : List UInt8) (h : hexPairs bytes = .ok (some bs))
    (heven : bytes.length % 2 = 0) : bytes.length = 2 * bs.length := by
  induction bytes using hexPairs.induct generalizing bs with
  | case1 a b rest hcut =>
    rw [hexPairs, if_pos hcut] at h
    cases h
  | case2 a b rest hcut hnone =>
    rw [hexPairs, if_neg hcut, hnone] at h
    cases h
  | case3 a b rest hcut byte hbyte ih =>
    rw [hexPairs, if_neg hcut, hbyte] at h
    simp only [List.length_cons] at heven ⊢
    cases hrest : hexPairs rest with
    | error e =>
      rw [hrest] at h
      cases h
    | ok r =>
      cases r with
      | none =>
        rw [hrest] at h
        cases h
      | some bs' =>
        rw [hrest] at h
        cases h
        have hlength := ih bs' hrest (by omega)
        rw [List.length_cons]
        omega
  | case4 bytes hshort =>
    match bytes with
    | [] =>
      cases h
      rfl
    | [a] => cases heven
    | a :: b :: rest => exact absurd rfl (hshort a b rest)

theorem length_spelled (cs : List Char) (bs : List UInt8) (h : spelled cs = some bs) :
    (utf8 cs).length = 2 * bs.length := by
  induction cs using taken.induct generalizing bs with
  | case1 =>
    cases h
    rfl
  | case2 c => cases h
  | case3 c d cs ih =>
    simp only [spelled, Option.bind_eq_bind, Option.bind_eq_some_iff, Option.pure_def,
      Option.some.injEq] at h
    obtain ⟨high, hhigh, low, hlow, bytes, hbytes, rfl⟩ := h
    rw [utf8_cons, utf8_cons, utf8EncodeChar_ascii c (hexValue_ascii c high hhigh),
      utf8EncodeChar_ascii d (hexValue_ascii d low hlow)]
    simp only [List.length_append, List.length_cons, List.length_nil, ih bytes hbytes]
    omega

theorem bytesToArray_eq_some (n : Nat) (bs : List UInt8) (a : Bytes n) :
    bytesToArray n bs = some a ↔ bs = a.1 := by
  unfold bytesToArray
  split
  next hlength => exact ⟨fun h => (by cases h; rfl), fun h => congrArg some (Subtype.ext h)⟩
  next hlength => exact ⟨fun h => (by cases h), fun h => absurd (h ▸ a.2) hlength⟩

/-- The function returns, and gives an array exactly when the trimmed text spells it. -/
def ReadExactly {n : Nat} (hexTo : String → Except Panic (Option (Bytes n))) (s : String) : Prop :=
  ∃ id, hexTo s = .ok id ∧ ∀ a : Bytes n, id = some a ↔ spelled (trim s.toList) = some a.1

theorem eq_of_bytesToArray (n : Nat) (r r' : Option (List UInt8)) (hr : ∀ bs ∈ r, bs.length = n)
    (hr' : ∀ bs ∈ r', bs.length = n)
    (h : ∀ a : Bytes n, r.bind (bytesToArray n) = some a ↔ r' = some a.1) : r = r' := by
  cases r with
  | none =>
    cases r' with
    | none => rfl
    | some bs => cases (h ⟨bs, hr' bs rfl⟩).mpr rfl
  | some bs =>
    have hsome := (bytesToArray_eq_some n bs ⟨bs, hr bs rfl⟩).mpr rfl
    exact ((h ⟨bs, hr bs rfl⟩).mp hsome).symm

theorem readExactly_of_length_ne (n : Nat) (s : String)
    (h : (utf8 (trim s.toList)).length ≠ 2 * n) : ReadExactly (hexTo n) s := by
  refine ⟨none, by rw [hexTo, if_pos h], fun a => ⟨fun ha => (by cases ha), fun ha => ?_⟩⟩
  have hspelled := length_spelled _ a.1 ha
  rw [a.2] at hspelled
  exact absurd hspelled h

theorem readExactly_of_length (n : Nat) (s : String)
    (h : (utf8 (trim s.toList)).length = 2 * n) :
    ReadExactly (hexTo n) s ↔ hexPairs (utf8 (trim s.toList)) = .ok (spelled (trim s.toList)) := by
  have hread : hexTo n s =
      (hexPairs (utf8 (trim s.toList))).map fun bs => bs.bind (bytesToArray n) := by
    rw [hexTo, if_neg (not_not.mpr h)]
  rw [ReadExactly, hread]
  constructor
  · intro hexact
    obtain ⟨id, hid, hid'⟩ := hexact
    cases hpairs : hexPairs (utf8 (trim s.toList)) with
    | error e =>
      rw [hpairs] at hid
      cases hid
    | ok r =>
      rw [hpairs] at hid
      cases hid
      refine congrArg Except.ok (eq_of_bytesToArray n r _ ?_ ?_ hid')
      · intro bs hbs
        rw [Option.mem_def.mp hbs] at hpairs
        have hlength := hexPairs_length _ bs hpairs (by omega)
        omega
      · intro bs hbs
        have hlength := length_spelled _ bs hbs
        omega
  · intro hpairs
    rw [hpairs]
    refine ⟨_, rfl, fun a => ?_⟩
    rw [Option.bind_eq_some_iff]
    simp only [bytesToArray_eq_some, exists_eq_right]

theorem readExactly_iff (n : Nat) (s : String) :
    ReadExactly (hexTo n) s ↔
      ((utf8 (trim s.toList)).length = 2 * n → misread (trim s.toList) = false) := by
  by_cases hlength : (utf8 (trim s.toList)).length = 2 * n
  · rw [readExactly_of_length n s hlength, hexPairs_exact_iff _ (by omega)]
    exact ⟨fun h _ => h, fun h => h hlength⟩
  · exact ⟨fun _ h => absurd h hlength, fun _ => readExactly_of_length_ne n s hlength⟩

/-- Ids are read exactly, except those texts of the right number of bytes that a slice cuts inside
a character, which stop the program, or that are read although they have a plus sign. -/
theorem hex_ids_iff (s : String) :
    (ReadExactly hexTo16 s ↔
      ((utf8 (trim s.toList)).length = 32 → misread (trim s.toList) = false)) ∧
    (ReadExactly hexTo8 s ↔
      ((utf8 (trim s.toList)).length = 16 → misread (trim s.toList) = false)) :=
  ⟨readExactly_iff 16 s, readExactly_iff 8 s⟩

/-- Eight pairs of a sign and a digit are read as an id, and a letter with an accent after one
digit stops the program. -/
theorem hex_ids_misread :
    hexTo8 "+0+1+2+3+4+5+6+f" = .ok (some ⟨[0, 1, 2, 3, 4, 5, 6, 15], rfl⟩) ∧
    spelled (trim "+0+1+2+3+4+5+6+f".toList) = none ∧
    hexTo8 "0é0000000000000" = .error .charBoundary ∧
    hexTo16 "0é00000000000000000000000000000" = .error .charBoundary :=
  ⟨rfl, rfl, rfl, rfl⟩

end InfraLens.Otlp
