import InfraLens.Lexer

/-! Which texts the lexer reads as which tokens, by what may follow them. -/
namespace InfraLens.Query
open LibText

theorem byteChar_asciiByte (c : Char) (h : c.toNat < 128) : byteChar (asciiByte c) = c := by
  rw [byteChar, toNat_asciiByte c h, Char.ofNat_toNat]

theorem toNat_byteChar (b : UInt8) : (byteChar b).toNat = b.toNat := by
  have hbound := b.toNat_lt
  have hvalid : b.toNat.isValidChar := Or.inl (by omega)
  rw [byteChar, Char.ofNat, dif_pos hvalid]
  rfl

theorem map_byteChar_ascii (cs : List Char) (h : ∀ c ∈ cs, c.toNat < 128) :
    (cs.map asciiByte).map byteChar = cs := by
  rw [List.map_map]
  refine (List.map_congr_left fun c hc => ?_).trans (List.map_id cs)
  exact byteChar_asciiByte c (h c hc)

def isIdentChar (c : Char) : Bool := isIdentStart c || c.isDigit

def isWord : List Char → Bool
  | [] => false
  | c :: cs => isIdentStart c && cs.all isIdentChar

/-- What ends words, numbers and strings. -/
def Delimits : List UInt8 → Prop
  | [] => True
  | b :: _ => isIdentByte b = false ∧ byteChar b ≠ '.' ∧ byteChar b ≠ '\''

def Anything : List UInt8 → Prop := fun _ => True

theorem isIdentStart_ascii (c : Char) (h : isIdentStart c = true) : c.toNat < 128 := by
  have hlower := isLower_iff c
  have hupper := isUpper_iff c
  rw [isIdentStart, Bool.or_eq_true, isAlpha_eq, Bool.or_eq_true] at h
  obtain (hu | hl) | hc := h
  · have := hupper.mp hu
    omega
  · have := hlower.mp hl
    omega
  · have hunder : c = '_' := of_decide_eq_true hc
    rw [hunder]
    decide

theorem isIdentChar_ascii (c : Char) (h : isIdentChar c = true) : c.toNat < 128 := by
  rw [isIdentChar, Bool.or_eq_true] at h
  cases h with
  | inl hstart => exact isIdentStart_ascii c hstart
  | inr hdigit =>
    have hbounds := (isDigit_iff c).mp hdigit
    omega

theorem isIdentStart_digit (c : Char) (h : c.isDigit = true) : isIdentStart c = false := by
  have hunder : c ≠ '_' := by
    rintro rfl
    cases h
  rw [isIdentStart, isAlpha_digit c h, decide_eq_false hunder]
  rfl

def Opens (c : Char) (r : List UInt8) : Prop :=
  c.isWhitespace = false ∧ (c = '-' → byteChar (peekByte r) ≠ '-')

theorem opens_ident (c : Char) (h : isIdentChar c = true) (r : List UInt8) : Opens c r := by
  refine ⟨?_, ?_⟩
  · cases hspace : c.isWhitespace with
    | false => rfl
    | true =>
      simp only [Char.isWhitespace, Bool.or_eq_true, decide_eq_true_eq] at hspace
      obtain ((rfl | rfl) | rfl) | rfl := hspace
      all_goals cases h
  · rintro rfl
    cases h

section Lexing
variable {F : Type} [FloatText F]

/-- Before any of the rests that may follow, a text is read as the tokens. -/
def Lexes (follow : List UInt8 → Prop) (w : List Char) (ts : List (Token F)) : Prop :=
  ∀ len rest, follow rest →
    tokeniseFrom len (utf8 w ++ rest) = (tokeniseFrom len rest).map (ts ++ ·)

omit [FloatText F] in
theorem map_append_nil (x : Except LexError (List (Token F))) : x.map ([] ++ ·) = x := by
  cases x <;> rfl

omit [FloatText F] in
theorem map_append_append (x : Except LexError (List (Token F))) (ts us : List (Token F)) :
    (x.map (us ++ ·)).map (ts ++ ·) = x.map (ts ++ us ++ ·) := by
  cases x with
  | error e => rfl
  | ok vs =>
    simp only [Except.map, List.append_assoc]

theorem Lexes.append {f g : List UInt8 → Prop} {u v : List Char} {ts us : List (Token F)}
    (hu : Lexes f u ts) (hv : Lexes g v us) (hfollow : ∀ rest, g rest → f (utf8 v ++ rest)) :
    Lexes g (u ++ v) (ts ++ us) := by
  intro len rest hrest
  rw [utf8_append, List.append_assoc, hu len _ (hfollow rest hrest), hv len rest hrest,
    map_append_append]

theorem Lexes.nil (f : List UInt8 → Prop) : Lexes f [] ([] : List (Token F)) := by
  intro len rest _
  rw [map_append_nil]
  rfl

theorem Lexes.mono {f g : List UInt8 → Prop} {w : List Char} {ts : List (Token F)}
    (h : Lexes f w ts) (hfollow : ∀ rest, g rest → f rest) : Lexes g w ts :=
  fun len rest hrest => h len rest (hfollow rest hrest)

/-! ### One token -/

theorem tokeniseFrom_end (len : Nat) {bs : List UInt8} (hskip : skipWhitespaceAndComments bs = []) :
    (tokeniseFrom len bs : Except LexError (List (Token F))) = .ok [.eof] := by
  rw [tokeniseFrom.eq_def len bs]
  split
  · rfl
  · next hs => rw [hskip] at hs; cases hs

theorem tokeniseFrom_error (len : Nat) {bs r : List UInt8} {b : UInt8} {e : LexError}
    (hskip : skipWhitespaceAndComments bs = b :: r)
    (he : (nextToken len b r : Except LexError (Token F × List UInt8)) = .error e) :
    (tokeniseFrom len bs : Except LexError (List (Token F))) = .error e := by
  rw [tokeniseFrom.eq_def len bs]
  split
  · next hs => rw [hskip] at hs; cases hs
  · next hs =>
    rw [hskip] at hs
    cases hs
    split
    · next he' => rw [he] at he'; cases he'; rfl
    · next ht => rw [he] at ht; cases ht

theorem tokeniseFrom_token (len : Nat) {bs r r' : List UInt8} {b : UInt8} {t : Token F}
    (hskip : skipWhitespaceAndComments bs = b :: r) (ht : nextToken len b r = .ok (t, r')) :
    tokeniseFrom len bs = (tokeniseFrom len r').map (t :: ·) := by
  rw [tokeniseFrom.eq_def len bs]
  split
  · next hs => rw [hskip] at hs; cases hs
  · next hs =>
    rw [hskip] at hs
    cases hs
    split
    · next he => rw [ht] at he; cases he
    · next ht' => rw [ht] at ht'; cases ht'; rfl

theorem tokeniseFrom_congr (len : Nat) {bs bs' : List UInt8}
    (h : skipWhitespaceAndComments bs = skipWhitespaceAndComments bs') :
    (tokeniseFrom len bs : Except LexError (List (Token F))) = tokeniseFrom len bs' := by
  cases hs : skipWhitespaceAndComments bs' with
  | nil => rw [tokeniseFrom_end len (h.trans hs), tokeniseFrom_end len hs]
  | cons b r =>
    cases ht : (nextToken len b r : Except LexError (Token F × List UInt8)) with
    | error e => rw [tokeniseFrom_error len (h.trans hs) ht, tokeniseFrom_error len hs ht]
    | ok p => rw [tokeniseFrom_token len (h.trans hs) ht, tokeniseFrom_token len hs ht]

theorem lexes_space : Lexes Anything [' '] ([] : List (Token F)) := by
  intro len rest _
  rw [map_append_nil]
  exact tokeniseFrom_congr len rfl

omit [FloatText F] in
theorem skip_opens (c : Char) (hc : c.toNat < 128) (r : List UInt8) (h : Opens c r) :
    skipWhitespaceAndComments (asciiByte c :: r) = asciiByte c :: r := by
  have hchar := byteChar_asciiByte c hc
  have hspace : ∀ b : UInt8, (byteChar b).isWhitespace = true → asciiByte c ≠ b := by
    rintro b hb rfl
    rw [hchar, h.1] at hb
    cases hb
  rw [skipWhitespaceAndComments, skip, if_neg (by decide), if_neg, if_neg]
  · rw [hchar]
    rintro ⟨hc, hr⟩
    exact h.2 hc hr
  · rintro (hb | hb | hb | hb)
    all_goals exact hspace _ (by decide) hb

theorem lexes_token {follow : List UInt8 → Prop} {c : Char} {cs : List Char} {t : Token F}
    (hc : c.toNat < 128) (hopens : ∀ rest, follow rest → Opens c (utf8 cs ++ rest))
    (ht : ∀ len rest, follow rest → nextToken len (asciiByte c) (utf8 cs ++ rest) = .ok (t, rest)) :
    Lexes follow (c :: cs) [t] := by
  intro len rest hrest
  have htext : utf8 (c :: cs) ++ rest = asciiByte c :: (utf8 cs ++ rest) := by
    rw [utf8_cons, utf8EncodeChar_ascii c hc]
    rfl
  rw [htext]
  exact tokeniseFrom_token len (skip_opens c hc _ (hopens rest hrest)) (ht len rest hrest)

/-! ### Punctuation and operators -/

theorem lexes_punctuation (c : Char) (t : Token F)
    (hc : c.toNat < 128 ∧ c.isWhitespace = false ∧ c ≠ '-') (h : punctuation c = some t) :
    Lexes Anything [c] [t] := by
  refine lexes_token hc.1 (fun rest _ => ⟨hc.2.1, fun hminus => absurd hminus hc.2.2⟩) ?_
  intro len rest _
  unfold nextToken
  simp only [byteChar_asciiByte c hc.1, h]
  rfl

theorem lexes_operator (c : Char) (cs : List Char) (t : Token F)
    (hc : c.toNat < 128 ∧ c.isWhitespace = false ∧ (c = '-' → cs = []))
    (ht : ∀ len r, nextToken len (asciiByte c) (utf8 cs ++ 32 :: r) = .ok (t, 32 :: r)) :
    Lexes Anything (' ' :: (c :: cs ++ [' '])) [t] := by
  have hop : Lexes (fun rest => ∃ r, rest = 32 :: r) (c :: cs) [t] := by
    refine lexes_token hc.1 ?_ ?_
    · rintro _ ⟨r, rfl⟩
      refine ⟨hc.2.1, fun hminus => ?_⟩
      rw [hc.2.2 hminus]
      change byteChar 32 ≠ '-'
      decide
    · rintro len _ ⟨r, rfl⟩
      exact ht len r
  exact lexes_space.append (hop.append lexes_space fun rest _ => ⟨rest, rfl⟩) fun _ _ => trivial

/-! ### Words -/

omit [FloatText F] in
theorem punctuation_ident (c : Char) (h : isIdentStart c = true) :
    (punctuation c : Option (Token F)) = none := by
  rw [punctuation.eq_def]
  split
  all_goals first | rfl | exact absurd h (by decide)

theorem nextToken_word (len : Nat) (c : Char) (h : isIdentStart c = true) (r : List UInt8) :
    nextToken len (asciiByte c) r = .ok (lexIdentOrKeyword (asciiByte c :: r) : Token F × _) := by
  have hne : ∀ d : Char, isIdentStart d = false → c ≠ d := by
    rintro d hd rfl
    rw [h] at hd
    cases hd
  have hdigit : c.isDigit = false := by
    cases hd : c.isDigit with
    | false => rfl
    | true => rw [isIdentStart_digit c hd] at h; cases h
  unfold nextToken
  simp only [byteChar_asciiByte c (isIdentStart_ascii c h), punctuation_ident c h]
  rw [if_neg (hne '<' (by decide)), if_neg (hne '>' (by decide)), if_neg (hne '!' (by decide)),
    if_neg (hne '\'' (by decide)), hdigit, h]
  rfl

theorem Delimits.ident {rest : List UInt8} (h : Delimits rest) :
    ∀ b ∈ rest.head?, isIdentByte b = false := by
  intro b hb
  cases rest with
  | nil => cases hb
  | cons b' r =>
    cases hb
    exact h.1

theorem lexes_word (word : List Char) (h : isWord word = true) :
    Lexes Delimits word [(wordToken word : Token F)] := by
  cases word with
  | nil => cases h
  | cons c cs =>
    rw [isWord, Bool.and_eq_true, List.all_eq_true] at h
    have hident : ∀ d ∈ c :: cs, isIdentChar d = true := by
      intro d hd
      cases List.mem_cons.mp hd with
      | inl he => rw [he, isIdentChar, h.1, Bool.true_or]
      | inr hm => exact h.2 d hm
    have hascii : ∀ d ∈ c :: cs, d.toNat < 128 := fun d hd => isIdentChar_ascii d (hident d hd)
    have hbytes : ∀ b ∈ (c :: cs).map asciiByte, isIdentByte b = true := by
      intro b hb
      obtain ⟨d, hd, rfl⟩ := List.mem_map.mp hb
      rw [isIdentByte, isDigitByte, byteChar_asciiByte d (hascii d hd)]
      exact hident d hd
    refine lexes_token (hascii c List.mem_cons_self) ?_ ?_
    · exact fun rest _ => opens_ident c (hident c List.mem_cons_self) _
    · intro len rest hrest
      obtain ⟨htake, hdrop⟩ := span_append hbytes hrest.ident
      rw [nextToken_word len c h.1, utf8_ascii cs fun d hd => hascii d (List.mem_cons_of_mem _ hd),
        ← List.cons_append, ← List.map_cons, lexIdentOrKeyword, htake, hdrop,
        map_byteChar_ascii _ hascii]

def keywords : List String :=
  ["SELECT", "FROM", "WHERE", "AND", "OR", "NOT", "IS", "NULL", "IN", "BETWEEN", "LIKE", "JOIN",
    "INNER", "LEFT", "RIGHT", "ON", "AS", "GROUP", "BY", "HAVING", "ORDER", "ASC", "DESC", "LIMIT",
    "OFFSET", "TRUE", "FALSE", "DISTINCT", "INTERVAL"]

def isName (w : List Char) : Bool :=
  isWord w && !keywords.contains (String.ofList (w.map Char.toUpper))

omit [FloatText F] in
theorem keyword_none (s : String) (h : s ∉ keywords) : (keyword s : Option (Token F)) = none := by
  rw [keyword.eq_def]
  split
  all_goals first | rfl | exact absurd h (by decide)

theorem lexes_name (w : List Char) (h : isName w = true) :
    Lexes Delimits w [(.ident (String.ofList w) : Token F)] := by
  rw [isName, Bool.and_eq_true, Bool.not_eq_true', List.contains_eq_mem,
    decide_eq_false_iff_not] at h
  have hword := lexes_word (F := F) w h.1
  rwa [wordToken, keyword_none _ h.2] at hword

/-! ### Numbers -/

omit [FloatText F] in
theorem punctuation_digit (c : Char) (h : c.isDigit = true) :
    (punctuation c : Option (Token F)) = none := by
  rw [punctuation.eq_def]
  split
  all_goals first | rfl | exact absurd h (by decide)

theorem nextToken_digit (len : Nat) (c : Char) (h : c.isDigit = true) (r : List UInt8) :
    (nextToken len (asciiByte c) r : Except LexError (Token F × List UInt8)) =
      lexNumber (asciiByte c :: r) := by
  have hne : ∀ d : Char, d.isDigit = false → c ≠ d := by
    rintro d hd rfl
    rw [h] at hd
    cases hd
  have hbounds := (isDigit_iff c).mp h
  unfold nextToken
  simp only [byteChar_asciiByte c (by omega), punctuation_digit c h]
  rw [if_neg (hne '<' (by decide)), if_neg (hne '>' (by decide)), if_neg (hne '!' (by decide)),
    if_neg (hne '\'' (by decide)), if_pos h]

theorem digits_ascii (ds : List Char) (h : ∀ c ∈ ds, c.isDigit = true) :
    ∀ c ∈ ds, c.toNat < 128 := by
  intro c hc
  have hbounds := (isDigit_iff c).mp (h c hc)
  omega

theorem digits_bytes (ds : List Char) (h : ∀ c ∈ ds, c.isDigit = true) :
    ∀ b ∈ ds.map asciiByte, isDigitByte b = true := by
  intro b hb
  obtain ⟨d, hd, rfl⟩ := List.mem_map.mp hb
  rw [isDigitByte, byteChar_asciiByte d (digits_ascii ds h d hd)]
  exact h d hd

theorem Delimits.digit {rest : List UInt8} (h : Delimits rest) :
    ∀ b ∈ rest.head?, isDigitByte b = false :=
  fun b hb => (Bool.or_eq_false_iff.mp (h.ident b hb)).2

theorem Delimits.point {rest : List UInt8} (h : Delimits rest) :
    byteChar (peekByte rest) ≠ '.' := by
  cases rest with
  | nil => decide
  | cons b r => exact h.2.1

theorem lexes_integer (ds : List Char) (i : Int64) (hds : ∀ c ∈ ds, c.isDigit = true)
    (hi : parseI64 ds = some i) : Lexes Delimits ds [(.intLit i : Token F)] := by
  cases ds with
  | nil => cases hi
  | cons c cs =>
    have hascii := digits_ascii (c :: cs) hds
    have hc := hds c List.mem_cons_self
    refine lexes_token (hascii c List.mem_cons_self)
      (fun rest _ => opens_ident c (by rw [isIdentChar, hc, Bool.or_true]) _) ?_
    intro len rest hrest
    obtain ⟨htake, hdrop⟩ := span_append (digits_bytes (c :: cs) hds) hrest.digit
    rw [nextToken_digit len c hc, utf8_ascii cs fun d hd => hascii d (List.mem_cons_of_mem _ hd),
      ← List.cons_append, ← List.map_cons, lexNumber, htake, hdrop, map_byteChar_ascii _ hascii]
    dsimp only
    rw [if_neg fun hpoint => hrest.point hpoint.1, hi]

theorem lexes_floatText (ds fs : List Char) (f : F) (hds : ∀ c ∈ ds ++ fs, c.isDigit = true)
    (hds_ne : ds ≠ []) (hfs_ne : fs ≠ [])
    (hf : FloatText.parseF64 (String.ofList (ds ++ '.' :: fs)) = some f) :
    Lexes Delimits (ds ++ '.' :: fs) [.floatLit f] := by
  cases ds with
  | nil => exact absurd rfl hds_ne
  | cons c cs =>
    have hwhole : ∀ d ∈ c :: cs, d.isDigit = true := fun d hd => hds d (List.mem_append_left _ hd)
    have hfrac : ∀ d ∈ fs, d.isDigit = true := fun d hd => hds d (List.mem_append_right _ hd)
    have hascii := digits_ascii (c :: cs) hwhole
    have hc := hwhole c List.mem_cons_self
    rw [List.cons_append]
    refine lexes_token (hascii c List.mem_cons_self)
      (fun rest _ => opens_ident c (by rw [isIdentChar, hc, Bool.or_true]) _) ?_
    intro len rest hrest
    have htext : utf8 (cs ++ '.' :: fs) ++ rest =
        cs.map asciiByte ++ (46 :: (fs.map asciiByte ++ rest)) := by
      rw [utf8_append, utf8_ascii cs fun d hd => hascii d (List.mem_cons_of_mem _ hd), utf8_cons,
        utf8_ascii fs (digits_ascii fs hfrac), List.append_assoc, List.append_assoc]
      rfl
    have hpoint : ∀ b ∈ (46 :: (fs.map asciiByte ++ rest)).head?, isDigitByte b = false := by
      rintro b ⟨⟩
      decide
    obtain ⟨htake, hdrop⟩ := span_append (digits_bytes (c :: cs) hwhole) hpoint
    obtain ⟨hftake, hfdrop⟩ := span_append (digits_bytes fs hfrac) hrest.digit
    have hdot : byteChar (peekByte (46 :: (fs.map asciiByte ++ rest))) = '.' := rfl
    have hnext : isDigitByte (peekByte (46 :: (fs.map asciiByte ++ rest)).tail) = true := by
      obtain ⟨d, ds', rfl⟩ := List.exists_cons_of_ne_nil hfs_ne
      exact digits_bytes _ hfrac _ List.mem_cons_self
    rw [nextToken_digit len c hc, htext, ← List.cons_append, ← List.map_cons, lexNumber,
      htake, hdrop, map_byteChar_ascii _ hascii]
    dsimp only
    rw [if_pos (And.intro hdot hnext), List.tail_cons, hftake, hfdrop,
      map_byteChar_ascii _ (digits_ascii fs hfrac), hf]

theorem lexes_float (ds fs : List Char) (hds : ∀ c ∈ ds ++ fs, c.isDigit = true) (hds_ne : ds ≠ [])
    (hfs_ne : fs ≠ []) : ∃ f : F, Lexes Delimits (ds ++ '.' :: fs) [.floatLit f] := by
  obtain ⟨f, hf⟩ := Option.isSome_iff_exists.mp
    (FloatText.parse_digits (F := F) ds fs hds_ne hfs_ne hds)
  exact ⟨f, lexes_floatText ds fs f hds hds_ne hfs_ne hf⟩

/-! ### Strings -/

theorem utf8_ne (q : Char) (hq : q.toNat < 128) (cs : List Char) (h : ∀ c ∈ cs, c ≠ q) :
    ∀ b ∈ utf8 cs, byteChar b ≠ q := by
  intro b hb
  obtain ⟨c, hc, hbc⟩ := List.mem_flatMap.mp hb
  by_cases hascii : c.toNat < 128
  · rw [utf8EncodeChar_ascii c hascii] at hbc
    have hbyte : b = asciiByte c := List.mem_singleton.mp hbc
    rw [hbyte, byteChar_asciiByte c hascii]
    exact h c hc
  · have hhigh := utf8EncodeChar_high c (by omega) b hbc
    intro hb
    rw [← toNat_byteChar, hb] at hhigh
    omega

theorem utf8_avoids (q : Char) (hq : q.toNat < 128) (cs : List Char)
    (h : ∀ c ∈ cs, c ≠ q ∧ c.toNat ≠ 0) : ∀ b ∈ utf8 cs, b ≠ 0 ∧ byteChar b ≠ q := by
  intro b hb
  refine ⟨?_, utf8_ne q hq cs (fun c hc => (h c hc).1) b hb⟩
  rintro rfl
  refine utf8_ne (byteChar 0) (by decide) cs (fun c hc he => (h c hc).2 ?_) 0 hb rfl
  rw [he]
  rfl

theorem utf8_plain (cs : List Char) (h : ∀ c ∈ cs, c ≠ '\'' ∧ c.toNat ≠ 0) :
    ∀ b ∈ utf8 cs, b ≠ 0 ∧ byteChar b ≠ '\'' :=
  utf8_avoids '\'' (by decide) cs h

theorem lexString_char (s : List Char) (b : UInt8) (r : List UInt8) (hzero : b ≠ 0)
    (hquote : byteChar b ≠ '\'') : lexString s (b :: r) = lexString (s ++ [byteChar b]) r := by
  cases r <;> simp [lexString, hzero, hquote]

theorem lexString_quote (s : List Char) (rest : List UInt8) (h : Delimits rest) :
    lexString s (39 :: rest) = .ok (s, rest) := by
  have hzero : (39 : UInt8) ≠ 0 := by decide
  have hquote : byteChar 39 = '\'' := by decide
  cases rest with
  | nil => rw [lexString, if_neg hzero, if_pos hquote]
  | cons b r => rw [lexString, if_neg hzero, if_pos hquote, if_neg h.2.2]

theorem lexString_plain (body r : List UInt8) (s : List Char)
    (h : ∀ b ∈ body, b ≠ 0 ∧ byteChar b ≠ '\'') :
    lexString s (body ++ r) = lexString (s ++ body.map byteChar) r := by
  induction body generalizing s with
  | nil => rw [List.map_nil, List.append_nil, List.nil_append]
  | cons b body ih =>
    obtain ⟨hzero, hquote⟩ := h b List.mem_cons_self
    rw [List.cons_append, lexString_char s b _ hzero hquote,
      ih _ fun d hd => h d (List.mem_cons_of_mem _ hd), List.map_cons, List.append_assoc]
    rfl

theorem lexString_body (body rest : List UInt8) (s : List Char)
    (h : ∀ b ∈ body, b ≠ 0 ∧ byteChar b ≠ '\'') (hrest : Delimits rest) :
    lexString s (body ++ 39 :: rest) = .ok (s ++ body.map byteChar, rest) := by
  rw [lexString_plain body _ s h, lexString_quote _ rest hrest]

theorem lexes_string (body : List Char) (h : ∀ c ∈ body, c ≠ '\'' ∧ c.toNat ≠ 0) :
    Lexes Delimits ('\'' :: (body ++ ['\'']))
      [(.strLit (String.ofList ((utf8 body).map byteChar)) : Token F)] := by
  refine lexes_token (by decide) (fun rest _ => ⟨by decide, fun h => absurd h (by decide)⟩) ?_
  intro len rest hrest
  have htext : utf8 (body ++ ['\'']) ++ rest = utf8 body ++ 39 :: rest := by
    rw [utf8_append, List.append_assoc]
    rfl
  have hbody := lexString_body (utf8 body) rest [] (utf8_plain body h) hrest
  rw [htext]
  change (lexString [] (utf8 body ++ 39 :: rest)).map _ = _
  rw [hbody]
  rfl

/-! ### Texts with spaces around them -/

theorem Lexes.after_space {f : List UInt8 → Prop} {w : List Char} {ts : List (Token F)}
    (h : Lexes f w ts) : Lexes f (' ' :: w) ts :=
  lexes_space.append h fun _ _ => trivial

theorem Lexes.before_space {w : List Char} {ts : List (Token F)} (h : Lexes Delimits w ts) :
    Lexes Anything (w ++ [' ']) ts := by
  have hpair := h.append lexes_space fun rest _ => ⟨by decide, by decide, by decide⟩
  rwa [List.append_nil] at hpair

end Lexing

end InfraLens.Query
