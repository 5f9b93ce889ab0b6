import InfraLens.Lexing

/-! Texts between quotes (lexer.rs): what the lexer makes of every string literal and every quoted
identifier. It takes the bytes of a text for its characters, and a zero byte for its end. -/
namespace InfraLens.Query
open LibText

def doubled (cs : List Char) : List Char :=
  cs.flatMap fun c => if c = '\'' then ['\'', '\''] else [c]

def quoteString (cs : List Char) : List Char := '\'' :: (doubled cs ++ ['\''])

def quoteIdent (cs : List Char) : List Char := '"' :: (cs ++ ['"'])

def zeroFree (cs : List Char) : Bool := cs.all fun c => c.toNat ≠ 0

/-! ### Characters of several bytes -/

theorem length_le_utf8 (cs : List Char) : cs.length ≤ (utf8 cs).length := by
  induction cs with
  | nil => exact Nat.le_refl 0
  | cons c cs ih =>
    have hpos := c.utf8Size_pos
    rw [utf8_cons, List.length_append, String.length_utf8EncodeChar, List.length_cons]
    omega

theorem map_byteChar_utf8_iff (cs : List Char) :
    (utf8 cs).map byteChar = cs ↔ ∀ c ∈ cs, c.toNat < 128 := by
  constructor
  · intro h
    have hlength : (utf8 cs).length = cs.length := by
      have hmap := congrArg List.length h
      rwa [List.length_map] at hmap
    clear h
    induction cs with
    | nil => simp
    | cons c cs ih =>
      have hle := length_le_utf8 cs
      have hpos := c.utf8Size_pos
      rw [utf8_cons, List.length_append, String.length_utf8EncodeChar, List.length_cons] at hlength
      have hone : c.utf8Size = 1 := by omega
      intro d hd
      cases List.mem_cons.mp hd with
      | inl he =>
        have hval := Char.utf8Size_eq_one_iff.mp hone
        rw [he]
        exact Nat.lt_succ_of_le (UInt32.le_iff_toNat_le.mp hval)
      | inr hm => exact ih (by omega) d hm
  · intro h
    rw [utf8_ascii cs h, map_byteChar_ascii cs h]

/-! ### Strings -/

theorem lexString_doubled_quote (s : List Char) (r : List UInt8) :
    lexString s (39 :: 39 :: r) = lexString (s ++ ['\'']) r := by
  have hquote : byteChar 39 = '\'' := by decide
  rw [lexString, if_neg (by decide), if_pos hquote, if_pos hquote]

theorem lexString_zero (s : List Char) (r : List UInt8) :
    lexString s (0 :: r) = .error .unterminatedString := by
  cases r <;> simp [lexString]

/-- A literal is read up to its closing quote, or to its first zero character. -/
theorem lexString_doubled (cs s : List Char) :
    lexString s (utf8 (doubled cs) ++ [39]) =
      if zeroFree cs then .ok (s ++ (utf8 cs).map byteChar, [])
      else .error .unterminatedString := by
  induction cs generalizing s with
  | nil =>
    have hend := lexString_quote s [] trivial
    simpa [doubled, utf8, zeroFree] using hend
  | cons c cs ih =>
    have hcons : utf8 (doubled (c :: cs)) =
        utf8 (if c = '\'' then ['\'', '\''] else [c]) ++ utf8 (doubled cs) := by
      rw [doubled, List.flatMap_cons, utf8_append]
      rfl
    rw [hcons, List.append_assoc, utf8_cons]
    by_cases hquote : c = '\''
    · have hbytes : utf8 ['\'', '\''] = [39, 39] := by decide
      have hbyte : String.utf8EncodeChar '\'' = [39] := by decide
      rw [if_pos hquote, hbytes, hquote, hbyte]
      change lexString s (39 :: 39 :: (utf8 (doubled cs) ++ [39])) = _
      rw [lexString_doubled_quote, ih]
      have hzero : zeroFree ('\'' :: cs) = zeroFree cs := rfl
      rw [hzero, List.append_assoc]
      rfl
    · rw [if_neg hquote]
      have hbytes : utf8 [c] = String.utf8EncodeChar c := List.append_nil _
      rw [hbytes]
      by_cases hzero : c.toNat = 0
      · have hbyte : String.utf8EncodeChar c = [0] := by
          rw [utf8EncodeChar_ascii c (by omega), hzero]
          rfl
        have hfree : zeroFree (c :: cs) = false := by simp [zeroFree, hzero]
        rw [hbyte, hfree]
        exact lexString_zero s _
      · have hplain := utf8_plain [c] (by simpa using ⟨hquote, hzero⟩)
        rw [hbytes] at hplain
        have hfree : zeroFree (c :: cs) = zeroFree cs := by simp [zeroFree, hzero]
        rw [lexString_plain _ _ s hplain, ih, hfree, List.map_append, List.append_assoc]

/-! ### Quoted identifiers -/

theorem lexQuotedIdent_char (s : List Char) (b : UInt8) (r : List UInt8) (hzero : b ≠ 0)
    (hquote : byteChar b ≠ '"') :
    lexQuotedIdent s (b :: r) = lexQuotedIdent (s ++ [byteChar b]) r := by
  rw [lexQuotedIdent, if_neg hzero, if_neg hquote]

theorem lexQuotedIdent_plain (body r : List UInt8) (s : List Char)
    (h : ∀ b ∈ body, b ≠ 0 ∧ byteChar b ≠ '"') :
    lexQuotedIdent s (body ++ r) = lexQuotedIdent (s ++ body.map byteChar) r := by
  induction body generalizing s with
  | nil => rw [List.map_nil, List.append_nil, List.nil_append]
  | cons b body ih =>
    obtain ⟨hzero, hquote⟩ := h b List.mem_cons_self
    rw [List.cons_append, lexQuotedIdent_char s b _ hzero hquote,
      ih _ fun d hd => h d (List.mem_cons_of_mem _ hd), List.map_cons, List.append_assoc]
    rfl

theorem lexQuotedIdent_text (cs s : List Char) (hcs : '"' ∉ cs) :
    lexQuotedIdent s (utf8 cs ++ [34]) =
      if zeroFree cs then .ok (s ++ (utf8 cs).map byteChar, []) else .error .unterminatedIdent := by
  induction cs generalizing s with
  | nil =>
    have hquote : byteChar 34 = '"' := by decide
    simp [utf8, zeroFree, lexQuotedIdent, hquote]
  | cons c cs ih =>
    rw [List.mem_cons, not_or] at hcs
    obtain ⟨hquote, hrest⟩ := hcs
    have hbytes : utf8 [c] = String.utf8EncodeChar c := List.append_nil _
    rw [utf8_cons, List.append_assoc]
    by_cases hzero : c.toNat = 0
    · have hbyte : String.utf8EncodeChar c = [0] := by
        rw [utf8EncodeChar_ascii c (by omega), hzero]
        rfl
      have hfree : zeroFree (c :: cs) = false := by simp [zeroFree, hzero]
      rw [hbyte, hfree]
      rfl
    · have hplain := utf8_avoids '"' (by decide) [c] (by simpa using ⟨Ne.symm hquote, hzero⟩)
      rw [hbytes] at hplain
      have hfree : zeroFree (c :: cs) = zeroFree cs := by simp [zeroFree, hzero]
      rw [lexQuotedIdent_plain _ _ s hplain, ih _ hrest, hfree, List.map_append, List.append_assoc]

/-! ### The whole text -/

section Tokens
variable {F : Type} [FloatText F]

theorem tokenise_quoted (b : UInt8) (r : List UInt8) (tok : String → Token F) (free : Bool)
    (s : List Char) (e : LexError) (lexed : Except LexError (List Char × List UInt8))
    (hskip : skipWhitespaceAndComments (b :: r) = b :: r)
    (hnext : ∀ len, nextToken len b r = lexed.map fun p => (tok (String.ofList p.1), p.2))
    (hlexed : lexed = if free then .ok (s, []) else .error e) :
    tokenise (b :: r) = if free then .ok [tok (String.ofList s), .eof] else .error e := by
  rw [hlexed] at hnext
  cases free with
  | true =>
    rw [tokenise, tokeniseFrom_token _ hskip (hnext _), tokeniseFrom_end _ rfl]
    rfl
  | false => exact tokeniseFrom_error _ hskip (hnext _)

theorem tokenise_quoteString (cs : List Char) :
    (tokenise (utf8 (quoteString cs)) : Except LexError (List (Token F))) =
      if zeroFree cs then .ok [.strLit (String.ofList ((utf8 cs).map byteChar)), .eof]
      else .error .unterminatedString := by
  have htext : utf8 (quoteString cs) = 39 :: (utf8 (doubled cs) ++ [39]) := by
    rw [quoteString, utf8_cons, utf8_append]
    rfl
  rw [htext]
  exact tokenise_quoted 39 _ .strLit _ _ _ _ rfl (fun _ => rfl) (lexString_doubled cs [])

theorem tokenise_quoteIdent (cs : List Char) (hcs : '"' ∉ cs) :
    (tokenise (utf8 (quoteIdent cs)) : Except LexError (List (Token F))) =
      if zeroFree cs then .ok [.ident (String.ofList ((utf8 cs).map byteChar)), .eof]
      else .error .unterminatedIdent := by
  have htext : utf8 (quoteIdent cs) = 34 :: (utf8 cs ++ [34]) := by
    rw [quoteIdent, utf8_cons, utf8_append]
    rfl
  rw [htext]
  exact tokenise_quoted 34 _ .ident _ _ _ _ rfl (fun _ => rfl) (lexQuotedIdent_text cs [] hcs)

omit [FloatText F] in
theorem read_back_iff (tok : String → Token F) (htok : ∀ s t, tok s = tok t → s = t) (s : String)
    (e : LexError) :
    (if zeroFree s.toList then
        .ok [tok (String.ofList ((utf8 s.toList).map byteChar)), .eof] else .error e :
      Except LexError (List (Token F))) = .ok [tok s, .eof] ↔
      ∀ c ∈ s.toList, 0 < c.toNat ∧ c.toNat < 128 := by
  have hall : (∀ c ∈ s.toList, 0 < c.toNat ∧ c.toNat < 128) ↔
      zeroFree s.toList = true ∧ (utf8 s.toList).map byteChar = s.toList := by
    rw [map_byteChar_utf8_iff, zeroFree, List.all_eq_true]
    simp only [decide_eq_true_eq, Nat.pos_iff_ne_zero]
    exact ⟨fun h => ⟨fun c hc => (h c hc).1, fun c hc => (h c hc).2⟩,
      fun h c hc => ⟨h.1 c hc, h.2 c hc⟩⟩
  rw [hall]
  cases zeroFree s.toList with
  | false => simp
  | true =>
    constructor
    · intro h
      have hs := htok _ _ (List.cons.inj (Except.ok.inj h)).1
      have hlist := congrArg String.toList hs
      rw [String.toList_ofList] at hlist
      exact ⟨rfl, hlist⟩
    · rintro ⟨_, h⟩
      rw [h, String.ofList_toList]
      rfl

/-- String literals and quoted identifiers are read back exactly when every character of them is
ASCII and not zero. -/
theorem quoted_read_back_iff (s : String) :
    ((tokenise (utf8 (quoteString s.toList)) : Except LexError (List (Token F))) =
        .ok [.strLit s, .eof] ↔ ∀ c ∈ s.toList, 0 < c.toNat ∧ c.toNat < 128) ∧
    ('"' ∉ s.toList →
      ((tokenise (utf8 (quoteIdent s.toList)) : Except LexError (List (Token F))) =
        .ok [.ident s, .eof] ↔ ∀ c ∈ s.toList, 0 < c.toNat ∧ c.toNat < 128)) := by
  constructor
  · rw [tokenise_quoteString]
    exact read_back_iff .strLit (fun s t h => Token.strLit.inj h) s _
  · intro hquote
    rw [tokenise_quoteIdent _ hquote]
    exact read_back_iff .ident (fun s t h => Token.ident.inj h) s _

end Tokens

/-- An accent becomes two characters, and a zero character ends the text. -/
theorem quoted_misread :
    @tokenise String floatTexts (utf8 (quoteString ['é'])) = .ok [.strLit "Ã©", .eof] ∧
    @tokenise String floatTexts (utf8 (quoteIdent ['é'])) = .ok [.ident "Ã©", .eof] ∧
    @tokenise String floatTexts (utf8 (quoteString [Char.ofNat 0])) =
      .error .unterminatedString := by
  refine ⟨?_, ?_, ?_⟩
  · rw [@tokenise_quoteString String floatTexts]
    rfl
  · rw [@tokenise_quoteIdent String floatTexts _ (by decide)]
    rfl
  · rw [@tokenise_quoteString String floatTexts]
    rfl

end InfraLens.Query
