import Mathlib.Algebra.Group.Nat.Defs
import Mathlib.Data.List.Basic
import Mathlib.Data.List.TakeWhile

/-! Texts as lists of characters: decimal and hexadecimal numbers, trimming, UTF-8 and base64, as
the standard library of Rust and the JSON encodings have them. -/
namespace InfraLens.LibText

/-! ### Decimal numbers -/

def decimal (n : Nat) : List Char := Nat.toDigits 10 n

def decimalInt (i : Int) : List Char := if i < 0 then '-' :: decimal i.natAbs else decimal i.natAbs

def parseNat (cs : List Char) : Option Nat :=
  if cs ≠ [] ∧ cs.all Char.isDigit then some (Nat.ofDigitChars 10 cs 0) else none

theorem isDigit_decimal (n : Nat) (c : Char) (h : c ∈ decimal n) : c.isDigit = true :=
  Nat.isDigit_of_mem_toDigits (by decide) (by decide) h

theorem decimal_ne_nil (n : Nat) : decimal n ≠ [] := Nat.toDigits_ne_nil

theorem parseNat_decimal (n : Nat) : parseNat (decimal n) = some n := by
  have hdigits : decimal n ≠ [] ∧ (decimal n).all Char.isDigit :=
    ⟨decimal_ne_nil n, List.all_eq_true.mpr (isDigit_decimal n)⟩
  rw [parseNat, if_pos hdigits, decimal, Nat.ofDigitChars_toDigits (by decide) (by decide)]

def stripPlus : List Char → List Char
  | '+' :: cs => cs
  | cs => cs

def parseU64 (cs : List Char) : Option UInt64 :=
  (parseNat (stripPlus cs)).bind fun n => if n < 2 ^ 64 then some (UInt64.ofNat n) else none

def parseI64 (cs : List Char) : Option Int64 :=
  match cs with
  | '-' :: ds =>
    (parseNat ds).bind fun n => if n ≤ 2 ^ 63 then some (Int64.ofInt (-(n : Int))) else none
  | _ =>
    (parseNat (stripPlus cs)).bind fun n => if n < 2 ^ 63 then some (Int64.ofInt n) else none

theorem decimal_cases (n : Nat) : ∃ c cs, decimal n = c :: cs ∧ c.isDigit = true := by
  cases h : decimal n with
  | nil => exact absurd h (decimal_ne_nil n)
  | cons c cs => exact ⟨c, cs, rfl, isDigit_decimal n c (by rw [h]; exact List.mem_cons_self)⟩

theorem stripPlus_digit (c : Char) (cs : List Char) (h : c.isDigit = true) :
    stripPlus (c :: cs) = c :: cs := by
  unfold stripPlus
  split
  next heq =>
    cases heq
    exact absurd h (by decide)
  · rfl

theorem stripPlus_decimal (n : Nat) : stripPlus (decimal n) = decimal n := by
  obtain ⟨c, cs, hcs, hc⟩ := decimal_cases n
  rw [hcs, stripPlus_digit c cs hc]

theorem parseI64_digit (c : Char) (cs : List Char) (h : c.isDigit = true) :
    parseI64 (c :: cs) =
      (parseNat (c :: cs)).bind fun n => if n < 2 ^ 63 then some (Int64.ofInt n) else none := by
  unfold parseI64
  split
  next heq =>
    cases heq
    exact absurd h (by decide)
  · rw [stripPlus_digit c cs h]

theorem parseI64_digits (ds : List Char) (hne : ds ≠ []) (hds : ∀ c ∈ ds, c.isDigit = true)
    (hfit : ∀ n, parseNat ds = some n → n < 2 ^ 63) : ∃ i, parseI64 ds = some i := by
  obtain ⟨c, cs, rfl⟩ := List.exists_cons_of_ne_nil hne
  have hnat : parseNat (c :: cs) = some (Nat.ofDigitChars 10 (c :: cs) 0) :=
    if_pos ⟨hne, List.all_eq_true.mpr hds⟩
  rw [parseI64_digit c cs (hds c List.mem_cons_self), hnat, Option.bind_some,
    if_pos (hfit _ hnat)]
  exact ⟨_, rfl⟩

theorem parseU64_decimal (n : UInt64) : parseU64 (decimal n.toNat) = some n := by
  rw [parseU64, stripPlus_decimal, parseNat_decimal, Option.bind_some, if_pos n.toNat_lt,
    UInt64.ofNat_toNat]

theorem parseI64_decimalInt (i : Int64) : parseI64 (decimalInt i.toInt) = some i := by
  have hlow := i.le_toInt
  have hhigh := i.toInt_lt
  rw [decimalInt]
  split
  next hneg =>
    have hback : (-(i.toInt.natAbs : Int)) = i.toInt := by omega
    simp only [parseI64, parseNat_decimal, Option.bind_some]
    rw [if_pos (by omega), hback, Int64.ofInt_toInt]
  next hpos =>
    have hback : (i.toInt.natAbs : Int) = i.toInt := by omega
    obtain ⟨c, cs, hcs, hc⟩ := decimal_cases i.toInt.natAbs
    rw [hcs, parseI64_digit c cs hc, ← hcs, parseNat_decimal, Option.bind_some,
      if_pos (by omega), hback, Int64.ofInt_toInt]

/-! ### Trimming -/

/-- The characters with the property `White_Space`. -/
def isWhitespace (c : Char) : Bool :=
  let n := c.toNat
  (9 ≤ n && n ≤ 13) || n == 0x20 || n == 0x85 || n == 0xA0 || n == 0x1680 ||
    (0x2000 ≤ n && n ≤ 0x200A) || n == 0x2028 || n == 0x2029 || n == 0x202F || n == 0x205F ||
    n == 0x3000

def trim (cs : List Char) : List Char :=
  ((cs.dropWhile isWhitespace).reverse.dropWhile isWhitespace).reverse

theorem dropWhile_of_head {α : Type} (p : α → Bool) (as : List α)
    (h : ∀ a ∈ as.head?, p a = false) : as.dropWhile p = as := by
  cases as with
  | nil => rfl
  | cons a as => rw [List.dropWhile_cons_of_neg (by simp [h a rfl])]

theorem span_append {α : Type} {p : α → Bool} {as bs : List α} (has : ∀ a ∈ as, p a = true)
    (hbs : ∀ b ∈ bs.head?, p b = false) :
    (as ++ bs).takeWhile p = as ∧ (as ++ bs).dropWhile p = bs := by
  rw [List.takeWhile_append_of_pos has, List.dropWhile_append_of_pos has]
  cases bs with
  | nil => simp
  | cons b bs =>
    have hb : p b = false := hbs b rfl
    rw [List.takeWhile_cons, List.dropWhile_cons, hb]
    simp

theorem trim_of_ends (cs : List Char) (hhead : ∀ c ∈ cs.head?, isWhitespace c = false)
    (hlast : ∀ c ∈ cs.getLast?, isWhitespace c = false) : trim cs = cs := by
  rw [trim, dropWhile_of_head isWhitespace cs hhead,
    dropWhile_of_head isWhitespace cs.reverse (by simpa using hlast), List.reverse_reverse]

theorem isDigit_iff (c : Char) : c.isDigit = true ↔ 48 ≤ c.toNat ∧ c.toNat ≤ 57 := by
  rw [Char.isDigit, Bool.and_eq_true, decide_eq_true_eq, decide_eq_true_eq]
  exact Iff.rfl

theorem isLower_iff (c : Char) : c.isLower = true ↔ 97 ≤ c.toNat ∧ c.toNat ≤ 122 := by
  change (decide (c.val ≥ 'a'.val) && decide (c.val ≤ 'z'.val)) = true ↔ _
  rw [Bool.and_eq_true, decide_eq_true_eq, decide_eq_true_eq]
  exact Iff.rfl

theorem isWhitespace_ascii (c : Char) (hlow : 32 < c.toNat) (hhigh : c.toNat < 128) :
    isWhitespace c = false := by
  simp only [isWhitespace, Bool.or_eq_false_iff, Bool.and_eq_false_iff, decide_eq_false_iff_not,
    beq_eq_false_iff_ne]
  omega

theorem isUpper_iff (c : Char) : c.isUpper = true ↔ 65 ≤ c.toNat ∧ c.toNat ≤ 90 :=
  decide_eq_true_iff

theorem isAlpha_eq (c : Char) : c.isAlpha = (c.isUpper || c.isLower) := rfl

theorem isAlpha_digit (c : Char) (h : c.isDigit = true) : c.isAlpha = false := by
  have hbounds := (isDigit_iff c).mp h
  have hlower : c.isLower = false := by
    rw [Bool.eq_false_iff, ne_eq, isLower_iff]
    omega
  have hupper : c.isUpper = false := by
    rw [Bool.eq_false_iff, ne_eq, isUpper_iff]
    omega
  rw [isAlpha_eq, hupper, hlower]
  rfl

theorem isAlpha_lower (c : Char) (h : c.isLower = true) : c.isAlpha = true := by
  rw [isAlpha_eq, h, Bool.or_true]

theorem toLower_lower (c : Char) (h : c.isLower = true) : c.toLower = c := by
  have hbounds := (isLower_iff c).mp h
  refine dif_neg ?_
  rintro ⟨_, hle⟩
  have hnat : c.toNat ≤ 90 := hle
  omega

theorem isWhitespace_digit (c : Char) (h : c.isDigit = true) : isWhitespace c = false := by
  have hbounds := (isDigit_iff c).mp h
  exact isWhitespace_ascii c (by omega) (by omega)

theorem isWhitespace_lower (c : Char) (h : c.isLower = true) : isWhitespace c = false := by
  have hbounds := (isLower_iff c).mp h
  exact isWhitespace_ascii c (by omega) (by omega)

theorem trim_surrounded (as cs bs : List Char) (has : ∀ c ∈ as, isWhitespace c = true)
    (hbs : ∀ c ∈ bs, isWhitespace c = true) (hne : cs ≠ [])
    (hhead : ∀ c ∈ cs.head?, isWhitespace c = false)
    (hlast : ∀ c ∈ cs.getLast?, isWhitespace c = false) : trim (as ++ (cs ++ bs)) = cs := by
  have hstart : ∀ c ∈ (cs ++ bs).head?, isWhitespace c = false := by
    intro c hc
    rw [List.head?_append_of_ne_nil _ hne] at hc
    exact hhead c hc
  have hend : ∀ c ∈ cs.reverse.head?, isWhitespace c = false := by
    intro c hc
    rw [List.head?_reverse] at hc
    exact hlast c hc
  rw [trim, List.dropWhile_append_of_pos has, dropWhile_of_head isWhitespace _ hstart,
    List.reverse_append, List.dropWhile_append_of_pos (by simpa using hbs),
    dropWhile_of_head isWhitespace _ hend, List.reverse_reverse]

theorem trim_append_spaces (cs sp : List Char) (hcs : ∀ c ∈ cs, isWhitespace c = false)
    (hsp : ∀ c ∈ sp, isWhitespace c = true) (hne : cs ≠ []) : trim (cs ++ sp) = cs :=
  trim_surrounded [] cs sp (by simp) hsp hne (fun c hc => hcs c (List.mem_of_mem_head? hc))
    fun c hc => hcs c (List.mem_of_mem_getLast? hc)

theorem trim_split (cs : List Char) : ∃ as bs, cs = as ++ (trim cs ++ bs) ∧
    (∀ c ∈ as, isWhitespace c = true) ∧ ∀ c ∈ bs, isWhitespace c = true := by
  refine ⟨cs.takeWhile isWhitespace,
    ((cs.dropWhile isWhitespace).reverse.takeWhile isWhitespace).reverse, ?_, ?_, ?_⟩
  · rw [trim, ← List.reverse_append, List.takeWhile_append_dropWhile, List.reverse_reverse,
      List.takeWhile_append_dropWhile]
  · exact fun c hc => List.mem_takeWhile_imp hc
  · exact fun c hc => List.mem_takeWhile_imp (List.mem_reverse.mp hc)

theorem head_dropWhile {α : Type} (p : α → Bool) (as : List α) :
    ∀ a ∈ (as.dropWhile p).head?, p a = false := by
  intro a ha
  have hhead := List.head?_dropWhile_not p as
  rwa [Option.mem_def.mp ha] at hhead

theorem getLast_trim (cs : List Char) : ∀ c ∈ (trim cs).getLast?, isWhitespace c = false := by
  intro c hc
  rw [trim, List.getLast?_reverse] at hc
  exact head_dropWhile isWhitespace _ c hc

theorem head_trim (cs : List Char) : ∀ c ∈ (trim cs).head?, isWhitespace c = false := by
  intro c hc
  obtain ⟨rest, hrest⟩ : trim cs <+: cs.dropWhile isWhitespace := by
    rw [trim, ← List.reverse_suffix, List.reverse_reverse]
    exact List.dropWhile_suffix _
  refine head_dropWhile isWhitespace cs c ?_
  rw [← hrest]
  cases htrim : trim cs with
  | nil =>
    rw [htrim] at hc
    cases hc
  | cons d ds =>
    rw [htrim] at hc
    exact hc

/-! ### UTF-8 -/

def utf8 (cs : List Char) : List UInt8 := cs.flatMap String.utf8EncodeChar

@[simp] theorem utf8_append (as bs : List Char) : utf8 (as ++ bs) = utf8 as ++ utf8 bs :=
  List.flatMap_append

theorem utf8_cons (c : Char) (cs : List Char) :
    utf8 (c :: cs) = String.utf8EncodeChar c ++ utf8 cs := rfl

theorem utf8EncodeChar_ascii (c : Char) (h : c.toNat < 128) :
    String.utf8EncodeChar c = [c.toNat.toUInt8] := by
  have hle : c.val.toNat ≤ 127 := by
    change c.toNat ≤ 127
    omega
  simp only [String.utf8EncodeChar, hle, if_true]
  rfl

def asciiByte (c : Char) : UInt8 := c.toNat.toUInt8

theorem toNat_asciiByte (c : Char) (h : c.toNat < 128) : (asciiByte c).toNat = c.toNat := by
  rw [asciiByte, Nat.toUInt8_eq, UInt8.toNat_ofNat']
  omega

theorem utf8_ascii (cs : List Char) (h : ∀ c ∈ cs, c.toNat < 128) : utf8 cs = cs.map asciiByte := by
  induction cs with
  | nil => rfl
  | cons c cs ih =>
    rw [utf8_cons, utf8EncodeChar_ascii c (h c List.mem_cons_self),
      ih fun d hd => h d (List.mem_cons_of_mem _ hd)]
    rfl

theorem utf8EncodeChar_high (c : Char) (h : 128 ≤ c.toNat) :
    ∀ b ∈ String.utf8EncodeChar c, 128 ≤ b.toNat := by
  have hlow : ¬ c.val.toNat ≤ 127 := by
    change ¬ c.toNat ≤ 127
    omega
  simp only [String.utf8EncodeChar, hlow, if_false]
  split_ifs <;> simp only [List.mem_cons, List.not_mem_nil, or_false, forall_eq_or_imp, forall_eq,
    UInt8.toNat_ofNat'] <;> omega

def isContinuation (b : UInt8) : Bool := 128 ≤ b && b < 192

/-- A character is one byte that is no continuation byte, then continuation bytes. -/
theorem utf8EncodeChar_shape (c : Char) : ∃ b bs, String.utf8EncodeChar c = b :: bs ∧
    isContinuation b = false ∧ (∀ x ∈ bs, isContinuation x = true) ∧
      bs.length + 1 = c.utf8Size := by
  have hlength := String.length_utf8EncodeChar c
  have hval : c.val.toNat = c.toNat := rfl
  cases hbytes : String.utf8EncodeChar c with
  | nil =>
    rw [hbytes] at hlength
    have hpos := c.utf8Size_pos
    simp at hlength
    omega
  | cons b bs =>
    rw [hbytes] at hlength
    refine ⟨b, bs, rfl, ?_, ?_, hlength⟩
    · simp only [String.utf8EncodeChar] at hbytes
      split_ifs at hbytes
      all_goals
        obtain ⟨rfl, rfl⟩ := List.cons.inj hbytes
        simp [isContinuation, UInt8.le_iff_toNat_le, UInt8.lt_iff_toNat_lt, UInt8.toNat_ofNat']
        omega
    · simp only [String.utf8EncodeChar] at hbytes
      split_ifs at hbytes
      all_goals
        obtain ⟨rfl, rfl⟩ := List.cons.inj hbytes
        simp [isContinuation, UInt8.le_iff_toNat_le, UInt8.lt_iff_toNat_lt, UInt8.toNat_ofNat']
        try omega

/-! ### Hexadecimal bytes and base64 -/

def hexByte (b : UInt8) : List Char :=
  [Nat.digitChar (b.toNat / 16), Nat.digitChar (b.toNat % 16)]

def hex (bs : List UInt8) : List Char := bs.flatMap hexByte

/-- `to_digit(16)` of an ASCII character. -/
def hexDigit (b : UInt8) : Option Nat :=
  if 48 ≤ b ∧ b ≤ 57 then some (b.toNat - 48)
  else if 97 ≤ b ∧ b ≤ 102 then some (b.toNat - 87)
  else if 65 ≤ b ∧ b ≤ 70 then some (b.toNat - 55)
  else none

/-- `u8::from_str_radix(_, 16)`: digits, with a plus sign allowed before them. -/
def parseHexU8 (bs : List UInt8) : Option UInt8 :=
  let ds := if bs.head? = some 43 then bs.tail else bs
  if ds = [] then none
  else (ds.mapM hexDigit).bind fun vs =>
    let n := vs.foldl (fun n v => 16 * n + v) 0
    if n < 256 then some (UInt8.ofNat n) else none

theorem digitChar_hex : ∀ n < 16, (Nat.digitChar n).toNat < 128 ∧
    isWhitespace (Nat.digitChar n) = false ∧ (Nat.digitChar n).toNat.toUInt8 ≠ 43 ∧
    isContinuation (Nat.digitChar n).toNat.toUInt8 = false ∧
    hexDigit (Nat.digitChar n).toNat.toUInt8 = some n := by
  decide

def hexBytes (b : UInt8) : List UInt8 :=
  [(Nat.digitChar (b.toNat / 16)).toNat.toUInt8, (Nat.digitChar (b.toNat % 16)).toNat.toUInt8]

theorem utf8_hex (bs : List UInt8) : utf8 (hex bs) = bs.flatMap hexBytes := by
  induction bs with
  | nil => rfl
  | cons b bs ih =>
    obtain ⟨hhigh, _⟩ := digitChar_hex (b.toNat / 16) (by have := b.toNat_lt; omega)
    obtain ⟨hlow, _⟩ := digitChar_hex (b.toNat % 16) (by omega)
    have hbyte : utf8 (hexByte b) = hexBytes b := by
      rw [hexByte, utf8_cons, utf8_cons, utf8EncodeChar_ascii _ hhigh, utf8EncodeChar_ascii _ hlow]
      rfl
    have hcons : hex (b :: bs) = hexByte b ++ hex bs := rfl
    rw [hcons, utf8_append, hbyte, ih, List.flatMap_cons]

theorem parseHexU8_hexBytes (b : UInt8) : parseHexU8 (hexBytes b) = some b := by
  have hlt := b.toNat_lt
  obtain ⟨_, _, hplus, _, hhigh⟩ := digitChar_hex (b.toNat / 16) (by omega)
  obtain ⟨_, _, _, _, hlow⟩ := digitChar_hex (b.toNat % 16) (by omega)
  have hn : 16 * (b.toNat / 16) + b.toNat % 16 = b.toNat := Nat.div_add_mod _ _
  simp [parseHexU8, hexBytes, hplus, hhigh, hlow, hn, hlt]

theorem isWhitespace_hex (bs : List UInt8) (c : Char) (h : c ∈ hex bs) :
    isWhitespace c = false := by
  obtain ⟨b, _, hc⟩ := List.mem_flatMap.mp h
  have hlt := b.toNat_lt
  cases List.mem_cons.mp hc with
  | inl he => exact he ▸ (digitChar_hex _ (by omega)).2.1
  | inr hm => exact List.mem_singleton.mp hm ▸ (digitChar_hex _ (by omega)).2.1

theorem trim_hex (bs : List UInt8) : trim (hex bs) = hex bs :=
  trim_of_ends _ (fun c hc => isWhitespace_hex bs c (List.mem_of_mem_head? hc))
    fun c hc => isWhitespace_hex bs c (List.mem_of_mem_getLast? hc)

theorem length_flatMap_hexBytes (bs : List UInt8) :
    (bs.flatMap hexBytes).length = 2 * bs.length := by
  induction bs with
  | nil => rfl
  | cons b bs ih =>
    rw [List.flatMap_cons, List.length_append, ih, List.length_cons]
    change 2 + 2 * bs.length = _
    omega

def base64Char (n : Nat) : Char :=
  "ABCDEFGHIJKLMNOPQRSTUVWXYZabcdefghijklmnopqrstuvwxyz0123456789+/".toList.getD n '='

def base64 : List UInt8 → List Char
  | a :: b :: c :: rest =>
    let n := a.toNat * 65536 + b.toNat * 256 + c.toNat
    base64Char (n / 262144) :: base64Char (n / 4096 % 64) :: base64Char (n / 64 % 64) ::
      base64Char (n % 64) :: base64 rest
  | [a, b] =>
    let n := a.toNat * 256 + b.toNat
    [base64Char (n / 1024), base64Char (n / 16 % 64), base64Char (n % 16 * 4), '=']
  | [a] => [base64Char (a.toNat / 4), base64Char (a.toNat % 4 * 16), '=', '=']
  | [] => []

end InfraLens.LibText
