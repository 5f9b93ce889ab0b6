import InfraLens.Executor
import InfraLens.Layout
import InfraLens.Printer
import InfraLens.Quoting

/-! Queries as texts (lib.rs, execute): the lexer, the parser and the executor in a row. A statement
written out in any spelling and layout runs as that statement. -/
namespace InfraLens.Query
open LibText Arrow

/-! ### Execution of a text -/

/-- Why a text gives no batches; `outOfFuel` is the parser's, and ParserTotal excludes it. -/
inductive TextStop (F : Type) where
  | lex (e : LexError)
  | parse (e : ParseError F)
  | outOfFuel
  | stop (s : Stop)

section Execution
variable {F : Type} [Alphabetic] [DecidableEq F] [FloatOps F]

def executeTokens (env : Env F) (catalog : Catalog) (tokens : List (Token F)) :
    Except (TextStop F) (List (RecordBatch F)) :=
  match parseStatement (tokens.length + 1) tokens with
  | .ok (.select sel) => (execute env catalog sel).mapError .stop
  | .error e => .error (.parse e)
  | .outOfFuel => .error .outOfFuel
  | .panic => .error (.stop .panic)

theorem executeTokens_clauses (env : Env F) (catalog : Catalog) (s : Clauses F)
    (semicolon : Bool) :
    executeTokens env catalog (s.tokens ++ semicolonTokens semicolon ++ [.eof]) =
      (execute env catalog s.statement).mapError .stop := by
  have hlength : (s.tokens ++ semicolonTokens semicolon ++ [Token.eof]).length =
      (s.tokens ++ semicolonTokens semicolon).length + 1 := List.length_append
  rw [executeTokens, hlength, parseStatement_clauses s semicolon (Nat.lt_succ_self _)]

def executeText [FloatText F] (env : Env F) (catalog : Catalog) (text : List UInt8) :
    Except (TextStop F) (List (RecordBatch F)) :=
  match tokenise text with
  | .error e => .error (.lex e)
  | .ok tokens => executeTokens env catalog tokens

end Execution

/-! ### Texts of tokens -/

/-- One token as it is written. -/
inductive Lexeme where
  | word (w : List Char)
  | integer (ds : List Char)
  | float (ds fs : List Char)
  | symbol (w : List Char)
  | string (s : List Char)
  | quoted (s : List Char)
  deriving DecidableEq

def Lexeme.text : Lexeme → List Char
  | .word w => w
  | .integer ds => ds
  | .float ds fs => ds ++ '.' :: fs
  | .symbol w => w
  | .string s => quoteString s
  | .quoted s => quoteIdent s

/-- The token a lexeme stands for, if it is one. -/
def Lexeme.token {F : Type} [FloatText F] : Lexeme → Option (Token F)
  | .word w => if isWord w then some (wordToken w) else none
  | .integer ds => if ds.all Char.isDigit then (parseI64 ds).map .intLit else none
  | .float ds fs =>
    if ds ≠ [] ∧ fs ≠ [] ∧ (ds ++ fs).all Char.isDigit = true then
      (FloatText.parseF64 (String.ofList (ds ++ '.' :: fs))).map .floatLit
    else none
  | .symbol w => (symbolTokens.find? fun p => p.1 == w).map Prod.snd
  | .string s =>
    if zeroFree s then some (.strLit (String.ofList ((utf8 s).map byteChar))) else none
  | .quoted s =>
    if zeroFree s ∧ '"' ∉ s then some (.ident (String.ofList ((utf8 s).map byteChar))) else none

/-- Operators that a next character could prolong, or turn into a comment. -/
def openSymbols : List (List Char) := [['<'], ['>'], ['-']]

/-- No character that belongs to an operator or a comment comes next. -/
def Apart (rest : List UInt8) : Prop := byteChar (peekByte rest) ∉ ['=', '>', '-']

instance : DecidablePred Apart := fun rest =>
  inferInstanceAs (Decidable (byteChar (peekByte rest) ∉ ['=', '>', '-']))

instance : DecidablePred Delimits
  | [] => isTrue trivial
  | b :: _ => inferInstanceAs
      (Decidable (isIdentByte b = false ∧ byteChar b ≠ '.' ∧ byteChar b ≠ '\''))

/-- What may follow a lexeme without a space. -/
def Lexeme.Before : Lexeme → List UInt8 → Prop
  | .symbol w => fun rest => w ∈ openSymbols → Apart rest
  | .quoted _ => Anything
  | _ => Delimits

instance (l : Lexeme) : DecidablePred l.Before := fun rest =>
  match l with
  | .symbol w => inferInstanceAs (Decidable (w ∈ openSymbols → Apart rest))
  | .quoted _ => isTrue trivial
  | .word _ | .integer _ | .float _ _ | .string _ => inferInstanceAs (Decidable (Delimits rest))

/-- Whitespace and comments; `unclosed` allows a comment without the end of its line. -/
def isBlank (unclosed : Bool) : Bool → List Char → Bool
  | comment, [] => !comment || unclosed
  | true, c :: w => isBlank unclosed (c ≠ '\n') w
  | false, c :: w =>
    if c.isWhitespace then isBlank unclosed false w
    else c = '-' && w.head? = some '-' && isBlank unclosed true w

def laidOut (tail : List Char) : List (List Char × Lexeme) → List Char
  | [] => tail
  | (v, l) :: ps => v ++ (l.text ++ laidOut tail ps)

section Tokens
variable {F : Type} [FloatText F]

/-- The tokens of a written text; none if its lexemes or its layout are not as they should be. -/
def writtenTokens (tail : List Char) : List (List Char × Lexeme) → Option (List (Token F))
  | [] => if isBlank true false tail then some [] else none
  | (v, l) :: ps =>
    if isBlank false false v ∧ l.Before (utf8 (laidOut tail ps)) then do
      let t ← l.token
      let ts ← writtenTokens tail ps
      return t :: ts
    else none

/-! ### The lexer -/

omit [FloatText F] in
theorem skip_isBlank (unclosed comment : Bool) (w : List Char) (r : List UInt8)
    (h : isBlank unclosed comment w = true) (hend : unclosed = true → r = []) :
    skip comment (utf8 w ++ r) = skip false r := by
  induction w generalizing comment with
  | nil =>
    cases comment with
    | false => rfl
    | true =>
      rw [hend h]
      rfl
  | cons c w ih =>
    cases comment with
    | true =>
      rw [isBlank] at h
      by_cases hline : c = '\n'
      · rw [hline] at h ⊢
        rw [utf8_ascii_cons '\n' w (by decide), List.cons_append, skip, if_pos rfl,
          if_pos (by decide)]
        exact ih false h
      · rw [decide_eq_true hline] at h
        have hbytes := utf8_ne '\n' (by decide) [c] (by simpa using hline)
        have htext : utf8 (c :: w) ++ r = utf8 [c] ++ (utf8 w ++ r) := by
          rw [← List.append_assoc, ← utf8_append]
          rfl
        rw [htext, skip_body _ _ hbytes, ih true h]
    | false =>
      rw [isBlank] at h
      split at h
      · next hspace =>
        rw [utf8_ascii_cons c w (whitespace_byte c hspace).1, List.cons_append,
          skip_space c hspace]
        exact ih false h
      · -- the second minus of a comment is read as part of its body
        simp only [Bool.and_eq_true, decide_eq_true_eq] at h
        obtain ⟨⟨rfl, hhead⟩, hbody⟩ := h
        obtain ⟨v, rfl⟩ : ∃ v, w = '-' :: v := by
          cases w with
          | nil => cases hhead
          | cons d v => exact ⟨v, by rw [Option.some.inj hhead]⟩
        have hopen : skip false (utf8 ('-' :: '-' :: v) ++ r) =
            skip true (utf8 ('-' :: v) ++ r) := by
          rw [utf8_ascii_cons '-' _ (by decide), List.cons_append, skip, if_neg (by decide),
            if_neg (by decide), if_pos]
          exact ⟨by decide, rfl⟩
        rw [hopen]
        exact ih true hbody

theorem nextToken_lt (len : Nat) (rest : List UInt8) (heq : byteChar (peekByte rest) ≠ '=')
    (hgt : byteChar (peekByte rest) ≠ '>') :
    nextToken len 60 rest = .ok ((.lt : Token F), rest) := by
  change (if byteChar (peekByte rest) = '=' then _ else if byteChar (peekByte rest) = '>' then _
    else _) = _
  rw [if_neg heq, if_neg hgt]

theorem nextToken_gt (len : Nat) (rest : List UInt8) (heq : byteChar (peekByte rest) ≠ '=') :
    nextToken len 62 rest = .ok ((.gt : Token F), rest) := by
  change (if byteChar (peekByte rest) = '=' then _ else _) = _
  rw [if_neg heq]

theorem lexes_symbolText (w : List Char) (t : Token F) (h : (w, t) ∈ symbolTokens) :
    Lexes (fun rest => w ∈ openSymbols → Apart rest) w [t] := by
  have hapart : ∀ {rest : List UInt8}, Apart rest → byteChar (peekByte rest) ≠ '=' ∧
      byteChar (peekByte rest) ≠ '>' ∧ byteChar (peekByte rest) ≠ '-' := by
    intro rest hrest
    simpa [Apart, not_or] using hrest
  simp only [symbolTokens, List.mem_cons, Prod.mk.injEq, List.not_mem_nil, or_false] at h
  casesm* _ ∨ _
  all_goals
    obtain ⟨rfl, rfl⟩ := h
    refine lexes_token (by decide) ?_ ?_
    · intro rest hrest
      first
        | exact ⟨by decide, fun hminus => absurd hminus (by decide)⟩
        | exact ⟨by decide, fun _ => (hapart (hrest (by decide))).2.2⟩
    · intro len rest hrest
      first
        | rfl
        | exact nextToken_lt len rest (hapart (hrest (by decide))).1
            (hapart (hrest (by decide))).2.1
        | exact nextToken_gt len rest (hapart (hrest (by decide))).1

omit [FloatText F] in
theorem lexString_quoted (cs s : List Char) (rest : List UInt8) (h : zeroFree cs = true)
    (hrest : Delimits rest) :
    lexString s (utf8 (doubled cs) ++ 39 :: rest) = .ok (s ++ (utf8 cs).map byteChar, rest) := by
  induction cs generalizing s with
  | nil =>
    rw [show utf8 [] = [] from rfl, List.map_nil, List.append_nil]
    exact lexString_quote s rest hrest
  | cons c cs ih =>
    rw [zeroFree, List.all_cons, Bool.and_eq_true] at h
    have hcons : utf8 (doubled (c :: cs)) =
        utf8 (if c = '\'' then ['\'', '\''] else [c]) ++ utf8 (doubled cs) := by
      rw [doubled, List.flatMap_cons, utf8_append]
      rfl
    rw [hcons, List.append_assoc, utf8_cons, List.map_append, ← List.append_assoc s]
    by_cases hquote : c = '\''
    · rw [if_pos hquote, hquote]
      change lexString s (39 :: 39 :: (utf8 (doubled cs) ++ 39 :: rest)) = _
      rw [lexString_doubled_quote, ih _ h.2]
      rfl
    · have hplain := utf8_plain [c] (by simpa using ⟨hquote, of_decide_eq_true h.1⟩)
      have hbytes : utf8 [c] = String.utf8EncodeChar c := List.append_nil _
      rw [if_neg hquote, lexString_plain _ _ s hplain, ih _ h.2, hbytes]

theorem lexes_quoteString (s : List Char) (h : zeroFree s = true) :
    Lexes Delimits (quoteString s)
      [(.strLit (String.ofList ((utf8 s).map byteChar)) : Token F)] := by
  refine lexes_token (by decide) (fun rest _ => ⟨by decide, fun h => absurd h (by decide)⟩) ?_
  intro len rest hrest
  have htext : utf8 (doubled s ++ ['\'']) ++ rest = utf8 (doubled s) ++ 39 :: rest := by
    rw [utf8_append, List.append_assoc]
    rfl
  rw [htext]
  change (lexString [] (utf8 (doubled s) ++ 39 :: rest)).map _ = _
  rw [lexString_quoted s [] rest h hrest]
  rfl

theorem lexes_quoteIdent (s : List Char) (h : zeroFree s = true) (hquote : '"' ∉ s) :
    Lexes Anything (quoteIdent s)
      [(.ident (String.ofList ((utf8 s).map byteChar)) : Token F)] := by
  refine lexes_token (by decide) (fun rest _ => ⟨by decide, fun h => absurd h (by decide)⟩) ?_
  intro len rest _
  have htext : utf8 (s ++ ['"']) ++ rest = utf8 s ++ 34 :: rest := by
    rw [utf8_append, List.append_assoc]
    rfl
  have hplain := utf8_avoids '"' (by decide) s fun c hc =>
    ⟨fun he => hquote (he ▸ hc), of_decide_eq_true (List.all_eq_true.mp h c hc)⟩
  rw [htext]
  change (lexQuotedIdent [] (utf8 s ++ 34 :: rest)).map _ = _
  rw [lexQuotedIdent_plain _ _ _ hplain]
  rfl

theorem lexes_lexeme (l : Lexeme) (t : Token F) (h : l.token = some t) :
    Lexes l.Before l.text [t] := by
  cases l with
  | word w =>
    obtain ⟨hw, ht⟩ := Option.ite_none_right_eq_some.mp h
    rw [← Option.some.inj ht]
    exact lexes_word w hw
  | integer ds =>
    obtain ⟨hds, ht⟩ := Option.ite_none_right_eq_some.mp h
    obtain ⟨i, hi, rfl⟩ := Option.map_eq_some_iff.mp ht
    exact lexes_integer ds i (List.all_eq_true.mp hds) hi
  | float ds fs =>
    obtain ⟨⟨hds, hfs, hall⟩, ht⟩ := Option.ite_none_right_eq_some.mp h
    obtain ⟨f, hf, rfl⟩ := Option.map_eq_some_iff.mp ht
    exact lexes_floatText ds fs f (List.all_eq_true.mp hall) hds hfs hf
  | symbol w =>
    obtain ⟨⟨w', t'⟩, hfind, rfl⟩ := Option.map_eq_some_iff.mp h
    have hbeq : (w' == w) = true :=
      List.find?_some (p := fun p : List Char × Token F => p.1 == w) hfind
    have hw : w' = w := eq_of_beq hbeq
    exact lexes_symbolText w t' (hw ▸ List.mem_of_find?_eq_some hfind)
  | string s =>
    obtain ⟨hs, ht⟩ := Option.ite_none_right_eq_some.mp h
    rw [← Option.some.inj ht]
    exact lexes_quoteString s hs
  | quoted s =>
    obtain ⟨hs, ht⟩ := Option.ite_none_right_eq_some.mp h
    rw [← Option.some.inj ht]
    exact lexes_quoteIdent s hs.1 hs.2

theorem tokenise_written (tail : List Char) (ps : List (List Char × Lexeme))
    (ts : List (Token F)) (h : writtenTokens tail ps = some ts) :
    tokenise (utf8 (laidOut tail ps)) = .ok (ts ++ [.eof]) := by
  have hread : ∀ len, tokeniseFrom len (utf8 (laidOut tail ps)) = .ok (ts ++ [.eof]) := by
    intro len
    induction ps generalizing ts with
    | nil =>
      obtain ⟨htail, hts⟩ := Option.ite_none_right_eq_some.mp h
      have hskip := skip_isBlank true false tail [] htail fun _ => rfl
      rw [List.append_nil] at hskip
      rw [← Option.some.inj hts]
      exact tokeniseFrom_end len hskip
    | cons p ps ih =>
      obtain ⟨v, l⟩ := p
      obtain ⟨⟨hv, hbefore⟩, hts⟩ := Option.ite_none_right_eq_some.mp h
      obtain ⟨t, ht, us, hus, rfl⟩ : ∃ t, l.token = some t ∧ ∃ us,
          writtenTokens tail ps = some us ∧ t :: us = ts := by
        simpa [Option.bind_eq_some_iff] using hts
      have hskip := skip_isBlank false false v (utf8 (l.text ++ laidOut tail ps)) hv nofun
      rw [laidOut, utf8_append, tokeniseFrom_congr len hskip, utf8_append,
        lexes_lexeme l t ht len _ hbefore, ih us hus]
      rfl
  exact hread _

end Tokens

section Texts
variable {F : Type} [FloatText F] [Alphabetic] [DecidableEq F] [FloatOps F]

/-- A statement that is written out runs as it is, however it is spelled and laid out. -/
theorem executeText_written (env : Env F) (catalog : Catalog) (tail : List Char)
    (ps : List (List Char × Lexeme)) (s : Clauses F) (semicolon : Bool)
    (h : writtenTokens tail ps = some (s.tokens ++ semicolonTokens semicolon)) :
    executeText env catalog (utf8 (laidOut tail ps)) =
      (execute env catalog s.statement).mapError .stop := by
  rw [executeText, tokenise_written tail ps _ h]
  exact executeTokens_clauses env catalog s semicolon

end Texts

/-! `SELECT count(*) AS n FROM metrics WHERE name='it''s' -- half ⏎ AND value>0.5;` -/

/-- Digits around a point, as the number they stand for. -/
def parseExact (s : String) : Option Exact :=
  let whole := s.toList.takeWhile (· ≠ '.')
  let frac := (s.toList.dropWhile (· ≠ '.')).tail
  if (whole ++ frac).all Char.isDigit then
    some (.num (mkRat (Nat.ofDigitChars 10 (whole ++ frac) 0) (10 ^ frac.length)))
  else none

theorem parseExact_digits (whole frac : List Char) (h : ∀ c ∈ whole ++ frac, c.isDigit = true) :
    (parseExact (String.ofList (whole ++ '.' :: frac))).isSome = true := by
  have hwhole : ∀ c ∈ whole, decide (c ≠ '.') = true := by
    intro c hc
    refine decide_eq_true ?_
    rintro rfl
    exact absurd (h '.' (List.mem_append_left _ hc)) (by decide)
  have hpoint : ∀ c ∈ ('.' :: frac).head?, decide (c ≠ '.') = false := by
    rintro c ⟨⟩
    decide
  obtain ⟨htake, hdrop⟩ := span_append hwhole hpoint
  rw [parseExact, String.toList_ofList, htake, hdrop, List.tail_cons,
    if_pos (List.all_eq_true.mpr h)]
  rfl

@[reducible] def exactTexts : FloatText Exact where
  parseF64 := parseExact
  parse_digits := fun whole frac _ _ h => parseExact_digits whole frac h

def halfFilter : Expr Exact :=
  .binOp .and (.binOp .eq (.column none "name") (.literal (.str "it's")))
    (.binOp .gt (.column none "value") (.literal (.float (.num (1 / 2)))))

def halfSelect : SelectStatement Exact where
  projections := [.expr (.function "count" [.star]) (some "n")]
  table := ⟨"metrics", none⟩
  joins := []
  filter := some halfFilter
  groupBy := []
  having := none
  orderBy := []
  limit := none
  offset := none

theorem printable_half : PrintableStatement halfSelect where
  projections_ne := by simp [halfSelect]
  projections := by simp [halfSelect, PrintableProjection, Printable, PrintableArgs]
  joins := by simp [halfSelect]
  filter := by simp [halfSelect, halfFilter, Printable]
  groupBy := by simp [halfSelect]
  having := by simp [halfSelect]
  orderBy := by simp [halfSelect]

def halfText : List (List Char × Lexeme) :=
  [("".toList, .word "SELECT".toList), (" ".toList, .word "count".toList),
    ("".toList, .symbol "(".toList), ("".toList, .symbol "*".toList),
    ("".toList, .symbol ")".toList), (" ".toList, .word "AS".toList),
    (" ".toList, .word "n".toList), (" ".toList, .word "FROM".toList),
    (" ".toList, .word "metrics".toList), (" ".toList, .word "where".toList),
    (" ".toList, .word "name".toList), ("".toList, .symbol "=".toList),
    ("".toList, .string "it's".toList), (" -- half\n".toList, .word "AND".toList),
    (" ".toList, .word "value".toList), ("".toList, .symbol ">".toList),
    ("".toList, .float "0".toList "5".toList), ("".toList, .symbol ";".toList)]

theorem laidOut_half : laidOut [] halfText =
    "SELECT count(*) AS n FROM metrics where name='it''s' -- half\nAND value>0.5;".toList := by
  decide

theorem written_half :
    @writtenTokens Exact exactTexts [] halfText =
      some (statementTokens halfSelect ++ semicolonTokens true) := by
  decide +kernel

theorem executeText_written_half :
    @executeText Exact asciiLetters _ _ exactTexts (logsEnv 0 []) Catalog.new
      (utf8 "SELECT count(*) AS n FROM metrics where name='it''s' -- half\nAND value>0.5;".toList) =
        (execute (logsEnv 0 []) Catalog.new halfSelect).mapError .stop := by
  have hclauses := @printedClauses_statement Exact asciiLetters halfSelect printable_half
  have htokens := @printedClauses_tokens Exact asciiLetters halfSelect printable_half
  have hrun := @executeText_written Exact exactTexts asciiLetters _ _ (logsEnv 0 []) Catalog.new []
    halfText (@printedClauses Exact asciiLetters halfSelect printable_half) true
  rw [hclauses, htokens, laidOut_half] at hrun
  exact hrun written_half

end InfraLens.Query
