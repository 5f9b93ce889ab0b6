import InfraLens.Lexing

/-! Layout and letter case (lexer.rs): tokens in any spelling, with any whitespace and comments
between them, are read as those tokens. -/
namespace InfraLens.Query
open LibText

/-! ### Spellings -/

section Spellings
variable {F : Type}

def keywordTokens : List (String × Token F) :=
  [("SELECT", .select), ("FROM", .fromKw), ("WHERE", .whereKw), ("AND", .and), ("OR", .or),
    ("NOT", .not), ("IS", .is), ("NULL", .null), ("IN", .inKw), ("BETWEEN", .between),
    ("LIKE", .like), ("JOIN", .join), ("INNER", .inner), ("LEFT", .left), ("RIGHT", .right),
    ("ON", .on), ("AS", .asKw), ("GROUP", .group), ("BY", .byKw), ("HAVING", .having),
    ("ORDER", .order), ("ASC", .asc), ("DESC", .desc), ("LIMIT", .limit), ("OFFSET", .offset),
    ("TRUE", .trueKw), ("FALSE", .falseKw), ("DISTINCT", .distinct), ("INTERVAL", .interval)]

/-- Operators and punctuation; one operator has two spellings. -/
def symbolTokens : List (List Char × Token F) :=
  [(['+'], .plus), (['-'], .minus), (['*'], .star), (['/'], .slash), (['%'], .percent),
    (['='], .eq), (['!', '='], .notEq), (['<', '>'], .notEq), (['<'], .lt), (['<', '='], .ltEq),
    (['>'], .gt), (['>', '='], .gtEq), (['('], .lParen), ([')'], .rParen), ([','], .comma),
    (['.'], .dot), ([';'], .semicolon)]

/-- The texts of a token: keywords in any letter case, names, numbers with any leading zeros,
operators and punctuation. -/
inductive Spells : List Char → Token F → Prop where
  | keyword (k : String) (t : Token F) (w : List Char) (hk : (k, t) ∈ keywordTokens)
      (hw : w.map Char.toUpper = k.toList) : Spells w t
  | name (w : List Char) (hw : isName w = true) : Spells w (.ident (String.ofList w))
  | integer (ds : List Char) (i : Int64) (hne : ds ≠ []) (hds : ∀ c ∈ ds, c.isDigit = true)
      (hi : (Nat.ofDigitChars 10 ds 0 : Int) = i.toInt) : Spells ds (.intLit i)
  | symbol (w : List Char) (t : Token F) (ht : (w, t) ∈ symbolTokens) : Spells w t

end Spellings

/-- Whitespace and comments that end with their line. -/
inductive Blank : List Char → Prop where
  | nil : Blank []
  | space (c : Char) (w : List Char) (hc : c.isWhitespace = true) (hw : Blank w) : Blank (c :: w)
  | comment (body w : List Char) (hbody : '\n' ∉ body) (hw : Blank w) :
      Blank ('-' :: '-' :: (body ++ '\n' :: w))

/-- What stands between two tokens starts with whitespace. -/
inductive Separator : List Char → Prop where
  | intro (c : Char) (w : List Char) (hc : c.isWhitespace = true) (hw : Blank w) :
      Separator (c :: w)

/-- What may stand after the last token; its last comment may lack its newline. -/
inductive Ending : List Char → Prop where
  | nil : Ending []
  | separator (w : List Char) (hw : Separator w) : Ending w
  | comment (w body : List Char) (hw : Separator w) (hbody : '\n' ∉ body) :
      Ending (w ++ '-' :: '-' :: body)

/-- A list of tokens written out. -/
inductive Rendered {F : Type} : List Char → List (Token F) → Prop where
  | nil : Rendered [] []
  | last (w v : List Char) (t : Token F) (hw : Spells w t) (hv : Ending v) : Rendered (w ++ v) [t]
  | cons (w v rest : List Char) (t u : Token F) (ts : List (Token F)) (hw : Spells w t)
      (hv : Separator v) (hrest : Rendered rest (u :: ts)) :
      Rendered (w ++ (v ++ rest)) (t :: u :: ts)

/-! ### Layout -/

theorem whitespace_byte (c : Char) (hc : c.isWhitespace = true) :
    c.toNat < 128 ∧ (asciiByte c = 32 ∨ asciiByte c = 9 ∨ asciiByte c = 10 ∨ asciiByte c = 13) := by
  simp only [Char.isWhitespace, Bool.or_eq_true, decide_eq_true_eq] at hc
  obtain ((rfl | rfl) | rfl) | rfl := hc
  all_goals decide

theorem utf8_ascii_cons (c : Char) (cs : List Char) (hc : c.toNat < 128) :
    utf8 (c :: cs) = asciiByte c :: utf8 cs := by
  rw [utf8_cons, utf8EncodeChar_ascii c hc]
  rfl

theorem skip_space (c : Char) (hc : c.isWhitespace = true) (r : List UInt8) :
    skip false (asciiByte c :: r) = skip false r := by
  rw [skip, if_neg (by decide), if_pos (whitespace_byte c hc).2]

theorem skip_body (body r : List UInt8) (h : ∀ b ∈ body, byteChar b ≠ '\n') :
    skip true (body ++ r) = skip true r := by
  induction body with
  | nil => rfl
  | cons b body ih =>
    rw [List.cons_append, skip, if_pos rfl, if_neg (h b List.mem_cons_self)]
    exact ih fun d hd => h d (List.mem_cons_of_mem _ hd)

theorem skip_comment (body : List Char) (hbody : '\n' ∉ body) (r : List UInt8) :
    skip false (utf8 ('-' :: '-' :: body) ++ r) = skip true r := by
  have hbytes := utf8_ne '\n' (by decide) body fun c hc he => hbody (he ▸ hc)
  have htext : utf8 ('-' :: '-' :: body) ++ r = 45 :: ([45] ++ (utf8 body ++ r)) := rfl
  have hopen : skip false (45 :: ([45] ++ (utf8 body ++ r))) =
      skip true ([45] ++ (utf8 body ++ r)) := by
    rw [skip, if_neg (by decide), if_neg (by decide), if_pos]
    exact ⟨by decide, rfl⟩
  rw [htext, hopen, skip_body [45] _ (List.forall_mem_singleton.mpr (by decide)),
    skip_body _ _ hbytes]

theorem skip_blank (w : List Char) (h : Blank w) (r : List UInt8) :
    skip false (utf8 w ++ r) = skip false r := by
  induction h with
  | nil => rfl
  | space c w hc hw ih =>
    rw [utf8_ascii_cons c w (whitespace_byte c hc).1, List.cons_append, skip_space c hc, ih]
  | comment body w hbody hw ih =>
    have htext : utf8 ('-' :: '-' :: (body ++ '\n' :: w)) ++ r =
        utf8 ('-' :: '-' :: body) ++ (10 :: (utf8 w ++ r)) := by
      change utf8 (('-' :: '-' :: body) ++ '\n' :: w) ++ r = _
      rw [utf8_append, List.append_assoc]
      rfl
    rw [htext, skip_comment body hbody, skip, if_pos rfl, if_pos (by decide), ih]

theorem skip_separator (w : List Char) (h : Separator w) (r : List UInt8) :
    skip false (utf8 w ++ r) = skip false r := by
  cases h with
  | intro c w hc hw => exact skip_blank (c :: w) (.space c w hc hw) r

theorem skip_ending (w : List Char) (h : Ending w) : skip false (utf8 w) = [] := by
  cases h with
  | nil => rfl
  | separator w hw =>
    have hskip := skip_separator w hw []
    rwa [List.append_nil] at hskip
  | comment w body hw hbody =>
    have hskip := skip_comment body hbody []
    rw [List.append_nil] at hskip
    rw [utf8_append, skip_separator w hw, hskip]
    rfl

/-! ### Tokens -/

def Spaced : List UInt8 → Prop
  | [] => True
  | b :: _ => b = 32 ∨ b = 9 ∨ b = 10 ∨ b = 13

theorem Spaced.delimits {rest : List UInt8} (h : Spaced rest) : Delimits rest := by
  cases rest with
  | nil => trivial
  | cons b r =>
    obtain rfl | rfl | rfl | rfl := h
    all_goals exact ⟨by decide, by decide, by decide⟩

theorem spaced_separator (w : List Char) (h : Separator w) (r : List UInt8) :
    Spaced (utf8 w ++ r) := by
  cases h with
  | intro c w hc hw =>
    obtain ⟨hascii, hbyte⟩ := whitespace_byte c hc
    rw [utf8_ascii_cons c w hascii]
    exact hbyte

theorem spaced_ending (w : List Char) (h : Ending w) : Spaced (utf8 w) := by
  cases h with
  | nil => trivial
  | separator w hw =>
    have hspaced := spaced_separator w hw []
    rwa [List.append_nil] at hspaced
  | comment w body hw hbody =>
    rw [utf8_append]
    exact spaced_separator w hw _

theorem toUpper_upper (c : Char) (h : c.toUpper.isUpper = true) : c.isAlpha = true := by
  rw [isAlpha_eq, Bool.or_eq_true]
  by_cases hlower : c.isLower = true
  · exact .inr hlower
  · have hsame : c.toUpper = c := by
      rw [isLower_iff] at hlower
      refine dif_neg ?_
      rintro ⟨hge, hle⟩
      exact hlower ⟨hge, hle⟩
    rw [hsame] at h
    exact .inl h

theorem keywords_upper : ∀ k ∈ keywords, k.toList ≠ [] ∧ k.toList.all Char.isUpper = true := by
  decide

theorem isWord_of_keyword (k : String) (hk : k ∈ keywords) (w : List Char)
    (hw : w.map Char.toUpper = k.toList) : isWord w = true := by
  obtain ⟨hne, hupper⟩ := keywords_upper k hk
  rw [← hw, List.all_map, List.all_eq_true] at hupper
  have halpha : ∀ c ∈ w, isIdentStart c = true := by
    intro c hc
    rw [isIdentStart, toUpper_upper c (hupper c hc), Bool.true_or]
  cases w with
  | nil => exact absurd hw.symm hne
  | cons c cs =>
    rw [isWord, halpha c List.mem_cons_self, Bool.true_and, List.all_eq_true]
    intro d hd
    rw [isIdentChar, halpha d (List.mem_cons_of_mem _ hd), Bool.true_or]

section Lexing
variable {F : Type}

theorem keyword_of_mem (k : String) (t : Token F) (h : (k, t) ∈ keywordTokens) :
    k ∈ keywords ∧ keyword k = some t := by
  simp only [keywordTokens, List.mem_cons, Prod.mk.injEq, List.not_mem_nil, or_false] at h
  casesm* _ ∨ _
  all_goals
    obtain ⟨rfl, rfl⟩ := h
    exact ⟨by decide, rfl⟩

variable [FloatText F]

theorem lexes_anyCase (k : String) (t : Token F) (w : List Char) (hk : (k, t) ∈ keywordTokens)
    (hw : w.map Char.toUpper = k.toList) : Lexes Delimits w [t] := by
  obtain ⟨hmem, hkeyword⟩ := keyword_of_mem k t hk
  have hword := lexes_word (F := F) w (isWord_of_keyword k hmem w hw)
  rwa [wordToken, hw, String.ofList_toList, hkeyword] at hword

theorem parseI64_ofDigitChars (ds : List Char) (i : Int64) (hne : ds ≠ [])
    (hds : ∀ c ∈ ds, c.isDigit = true) (hi : (Nat.ofDigitChars 10 ds 0 : Int) = i.toInt) :
    parseI64 ds = some i := by
  obtain ⟨c, cs, rfl⟩ := List.exists_cons_of_ne_nil hne
  have hlt := i.toInt_lt
  rw [parseI64_digit c cs (hds c List.mem_cons_self), parseNat,
    if_pos ⟨hne, List.all_eq_true.mpr hds⟩, Option.bind_some, if_pos (by omega), hi,
    Int64.ofInt_toInt]

omit [FloatText F] in
theorem Spaced.peek {rest : List UInt8} (h : Spaced rest) : byteChar (peekByte rest) ≠ '-' := by
  cases rest with
  | nil => decide
  | cons b r =>
    change byteChar b ≠ '-'
    obtain rfl | rfl | rfl | rfl := h
    all_goals decide

theorem lexes_symbol (w : List Char) (t : Token F) (h : (w, t) ∈ symbolTokens) :
    Lexes Spaced w [t] := by
  simp only [symbolTokens, List.mem_cons, Prod.mk.injEq, List.not_mem_nil, or_false] at h
  casesm* _ ∨ _
  all_goals
    obtain ⟨rfl, rfl⟩ := h
    refine lexes_token (by decide) ?_ ?_
    · intro rest hrest
      first
        | exact ⟨by decide, fun hminus => absurd hminus (by decide)⟩
        | exact ⟨by decide, fun _ => hrest.peek⟩
    · intro len rest hrest
      -- two characters are taken only if the second is not whitespace
      cases rest with
      | nil => rfl
      | cons b r =>
        obtain rfl | rfl | rfl | rfl := hrest
        all_goals rfl

theorem lexes_spells (w : List Char) (t : Token F) (h : Spells w t) : Lexes Spaced w [t] := by
  cases h with
  | keyword k _ _ hk hw => exact (lexes_anyCase k t w hk hw).mono fun _ hrest => hrest.delimits
  | name _ hw => exact (lexes_name w hw).mono fun _ hrest => hrest.delimits
  | integer _ i hne hds hi =>
    have hnumber := lexes_integer (F := F) w i hds (parseI64_ofDigitChars w i hne hds hi)
    exact hnumber.mono fun _ hrest => hrest.delimits
  | symbol _ _ ht => exact lexes_symbol w t ht

/-- Tokens in any spelling and layout are read as they are. -/
theorem tokens_read_back (w : List Char) (ts : List (Token F)) (h : Rendered w ts) :
    tokenise (utf8 w) = .ok (ts ++ [.eof]) := by
  have hread : ∀ len, tokeniseFrom len (utf8 w) = .ok (ts ++ [.eof]) := by
    intro len
    induction h with
    | nil => exact tokeniseFrom_end len rfl
    | last w v t hw hv =>
      rw [utf8_append, lexes_spells w t hw len _ (spaced_ending v hv),
        tokeniseFrom_end len (skip_ending v hv)]
      rfl
    | cons w v rest t u ts hw hv hrest ih =>
      have hskip := tokeniseFrom_congr (F := F) len (skip_separator v hv (utf8 rest))
      rw [utf8_append, utf8_append, lexes_spells w t hw len _ (spaced_separator v hv _), hskip, ih]
      rfl
  exact hread _

end Lexing

def sampleLayout : List Char := "sElEcT -- all\n a\t<= 007 -- end".toList

theorem tokens_read_back_sample :
    @tokenise String floatTexts (utf8 sampleLayout) =
      .ok [.select, .ident "a", .ltEq, .intLit 7, .eof] := by
  have hrendered : Rendered (F := String) sampleLayout [.select, .ident "a", .ltEq, .intLit 7] := by
    refine .cons "sElEcT".toList " -- all\n ".toList _ _ _ _
      (.keyword "SELECT" _ _ (by decide) rfl)
      (.intro ' ' _ rfl (.comment " all".toList _ (by decide) (.space ' ' _ rfl .nil))) ?_
    refine .cons "a".toList "\t".toList _ _ _ _ (.name _ (by decide)) (.intro '\t' _ rfl .nil) ?_
    refine .cons "<=".toList " ".toList _ _ _ _ (.symbol _ _ (by decide)) (.intro ' ' _ rfl .nil) ?_
    exact .last "007".toList _ _
      (.integer _ 7 (by decide) (List.all_eq_true.mp (by decide)) (by decide))
      (.comment " ".toList " end".toList (.intro ' ' _ rfl .nil) (by decide))
  exact @tokens_read_back String floatTexts sampleLayout _ hrendered

end InfraLens.Query
