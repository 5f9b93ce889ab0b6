import InfraLens.LibText
import InfraLens.LibExcept

/-! The tokens of IQL and its lexer (lexer.rs), which works on the bytes of the text. -/
namespace InfraLens.Query
open LibText LibExcept

inductive Token (F : Type) where
  | select | fromKw | whereKw | and | or | not | is | null | inKw | between | like
  | join | inner | left | right | on | asKw | group | byKw | having | order | asc | desc
  | limit | offset | trueKw | falseKw | distinct | interval
  | ident (s : String)
  | intLit (n : Int64)
  | floatLit (f : F)
  | strLit (s : String)
  | plus | minus | star | slash | percent
  | eq | notEq | lt | ltEq | gt | gtEq
  | lParen | rParen | comma | dot | semicolon
  | eof
  deriving DecidableEq

inductive LexError where
  | unexpectedBang (pos : Nat)
  | unexpectedByte (b : UInt8)
  | unterminatedString
  | unterminatedIdent
  | invalidFloat
  | invalidInt
  deriving DecidableEq

def byteChar (b : UInt8) : Char := Char.ofNat b.toNat

def LexError.message : LexError → String
  | .unexpectedBang pos => s!"unexpected '!' at {pos}"
  | .unexpectedByte b =>
    "unexpected byte 0x" ++ String.ofList (Nat.toDigits 16 b.toNat) ++ " ('" ++
      String.singleton (byteChar b) ++ "')"
  | .unterminatedString => "unterminated string literal"
  | .unterminatedIdent => "unterminated quoted identifier"
  | .invalidFloat => "invalid float literal"
  | .invalidInt => "number too large to fit in target type"

/-- How floating-point numbers are read: every text with digits on both sides of a point is one. -/
class FloatText (F : Type) where
  parseF64 : String → Option F
  parse_digits : ∀ whole frac : List Char, whole ≠ [] → frac ≠ [] →
    (∀ c ∈ whole ++ frac, c.isDigit = true) →
      (parseF64 (String.ofList (whole ++ '.' :: frac))).isSome = true

@[reducible] def floatTexts : FloatText String where
  parseF64 := some
  parse_digits := fun _ _ _ _ _ => rfl

def peekByte (r : List UInt8) : UInt8 := r.headD 0

def isDigitByte (b : UInt8) : Bool := (byteChar b).isDigit

def isIdentStart (c : Char) : Bool := c.isAlpha || c = '_'

def isIdentByte (b : UInt8) : Bool := isIdentStart (byteChar b) || isDigitByte b

/-- Whitespace and comments, which end with their line. -/
def skip (comment : Bool) : List UInt8 → List UInt8
  | [] => []
  | b :: r =>
    if comment then if byteChar b = '\n' then skip false r else skip true r
    else if b = 32 ∨ b = 9 ∨ b = 10 ∨ b = 13 then skip false r
    else if byteChar b = '-' ∧ byteChar (peekByte r) = '-' then skip true r
    else b :: r

def skipWhitespaceAndComments (bs : List UInt8) : List UInt8 := skip false bs

/-- The rest of a string literal. Two quotes stand for one, and a zero byte ends the text. -/
def lexString (s : List Char) : List UInt8 → Except LexError (List Char × List UInt8)
  | [] => .error .unterminatedString
  | b :: r =>
    if b = 0 then .error .unterminatedString
    else if byteChar b = '\'' then
      match r with
      | [] => .ok (s, [])
      | b' :: r' => if byteChar b' = '\'' then lexString (s ++ ['\'']) r' else .ok (s, b' :: r')
    else lexString (s ++ [byteChar b]) r

def lexQuotedIdent (s : List Char) : List UInt8 → Except LexError (List Char × List UInt8)
  | [] => .error .unterminatedIdent
  | b :: r =>
    if b = 0 then .error .unterminatedIdent
    else if byteChar b = '"' then .ok (s, r)
    else lexQuotedIdent (s ++ [byteChar b]) r

section Tokens
variable {F : Type}

def keyword : String → Option (Token F)
  | "SELECT" => some .select
  | "FROM" => some .fromKw
  | "WHERE" => some .whereKw
  | "AND" => some .and
  | "OR" => some .or
  | "NOT" => some .not
  | "IS" => some .is
  | "NULL" => some .null
  | "IN" => some .inKw
  | "BETWEEN" => some .between
  | "LIKE" => some .like
  | "JOIN" => some .join
  | "INNER" => some .inner
  | "LEFT" => some .left
  | "RIGHT" => some .right
  | "ON" => some .on
  | "AS" => some .asKw
  | "GROUP" => some .group
  | "BY" => some .byKw
  | "HAVING" => some .having
  | "ORDER" => some .order
  | "ASC" => some .asc
  | "DESC" => some .desc
  | "LIMIT" => some .limit
  | "OFFSET" => some .offset
  | "TRUE" => some .trueKw
  | "FALSE" => some .falseKw
  | "DISTINCT" => some .distinct
  | "INTERVAL" => some .interval
  | _ => none

def wordToken (word : List Char) : Token F :=
  (keyword (String.ofList (word.map Char.toUpper))).getD (.ident (String.ofList word))

def lexIdentOrKeyword (bs : List UInt8) : Token F × List UInt8 :=
  (wordToken ((bs.takeWhile isIdentByte).map byteChar), bs.dropWhile isIdentByte)

variable [FloatText F]

def lexNumber (bs : List UInt8) : Except LexError (Token F × List UInt8) :=
  let whole := (bs.takeWhile isDigitByte).map byteChar
  let r := bs.dropWhile isDigitByte
  if byteChar (peekByte r) = '.' ∧ isDigitByte (peekByte r.tail) then
    let frac := (r.tail.takeWhile isDigitByte).map byteChar
    match FloatText.parseF64 (String.ofList (whole ++ '.' :: frac)) with
    | some f => .ok (.floatLit f, r.tail.dropWhile isDigitByte)
    | none => .error .invalidFloat
  else
    match parseI64 whole with
    | some n => .ok (.intLit n, r)
    | none => .error .invalidInt

omit [FloatText F] in
def punctuation : Char → Option (Token F)
  | '+' => some .plus
  | '-' => some .minus
  | '*' => some .star
  | '/' => some .slash
  | '%' => some .percent
  | '(' => some .lParen
  | ')' => some .rParen
  | ',' => some .comma
  | '.' => some .dot
  | ';' => some .semicolon
  | '=' => some .eq
  | _ => none

/-- The token that starts with the byte `b`. The length of the whole text gives positions. -/
def nextToken (len : Nat) (b : UInt8) (r : List UInt8) : Except LexError (Token F × List UInt8) :=
  let c := byteChar b
  match punctuation c with
  | some t => .ok (t, r)
  | none =>
    if c = '<' then
      if byteChar (peekByte r) = '=' then .ok (.ltEq, r.tail)
      else if byteChar (peekByte r) = '>' then .ok (.notEq, r.tail)
      else .ok (.lt, r)
    else if c = '>' then
      if byteChar (peekByte r) = '=' then .ok (.gtEq, r.tail) else .ok (.gt, r)
    else if c = '!' then
      if byteChar (peekByte r) = '=' then .ok (.notEq, r.tail)
      else .error (.unexpectedBang (len - r.length))
    else if c = '\'' then (lexString [] r).map fun p => (.strLit (String.ofList p.1), p.2)
    else if c.isDigit then lexNumber (b :: r)
    else if isIdentStart c then .ok (lexIdentOrKeyword (b :: r))
    else if c = '"' then (lexQuotedIdent [] r).map fun p => (.ident (String.ofList p.1), p.2)
    else .error (.unexpectedByte b)

/-! Every token takes at least its first byte. -/

theorem skip_length (comment : Bool) (bs : List UInt8) : (skip comment bs).length ≤ bs.length := by
  induction bs generalizing comment with
  | nil => exact Nat.le_refl _
  | cons b r ih =>
    have htrue := ih true
    have hfalse := ih false
    rw [skip, List.length_cons]
    split_ifs <;> simp <;> omega

theorem lexString_length (bs : List UInt8) (s : List Char) (p : List Char × List UInt8)
    (h : lexString s bs = .ok p) : p.2.length ≤ bs.length := by
  fun_induction lexString s bs with
  | case1 s => cases h
  | case2 s r => cases h
  | case3 s b hb hq => cases h; simp
  | case4 s b hb hq b' r' hq' ih =>
    have hle := ih h
    simp only [List.length_cons]
    omega
  | case5 s b hb hq b' r' hq' => cases h; simp
  | case6 s b r hb hq ih =>
    have hle := ih h
    simp only [List.length_cons]
    omega

theorem lexQuotedIdent_length (bs : List UInt8) (s : List Char) (p : List Char × List UInt8)
    (h : lexQuotedIdent s bs = .ok p) : p.2.length ≤ bs.length := by
  fun_induction lexQuotedIdent s bs with
  | case1 s => cases h
  | case2 s r => cases h
  | case3 s b r hb hq => cases h; simp
  | case4 s b r hb hq ih =>
    have hle := ih h
    simp only [List.length_cons]
    omega

theorem lexNumber_length (b : UInt8) (r : List UInt8) (hb : isDigitByte b = true)
    (p : Token F × List UInt8) (h : lexNumber (b :: r) = .ok p) : p.2.length ≤ r.length := by
  have hdrop : (b :: r).dropWhile isDigitByte = r.dropWhile isDigitByte := by
    rw [List.dropWhile_cons_of_pos hb]
  have hrest := (List.dropWhile_sublist isDigitByte (l := r)).length_le
  have hfrac := (List.dropWhile_sublist isDigitByte
    (l := (r.dropWhile isDigitByte).tail)).length_le
  have htail := (r.dropWhile isDigitByte).length_tail
  rw [lexNumber, hdrop] at h
  dsimp only at h
  split_ifs at h
  · split at h
    · cases h
      dsimp only
      omega
    · cases h
  · split at h
    · cases h
      exact hrest
    · cases h

theorem nextToken_length (len : Nat) (b : UInt8) (r : List UInt8) (p : Token F × List UInt8)
    (h : nextToken len b r = .ok p) : p.2.length ≤ r.length := by
  have htail := r.length_tail
  unfold nextToken at h
  dsimp only at h
  split at h
  · cases h
    exact Nat.le_refl _
  · split_ifs at h with hlt h1 h2 hgt h3 hbang h4 hquote hdigit hident hq
    all_goals try (cases h; dsimp only; omega)
    · obtain ⟨q, hq, rfl⟩ := map_ok h
      exact lexString_length r [] q hq
    · exact lexNumber_length b r hdigit p h
    · cases h
      have hb : isIdentByte b = true := by simp [isIdentByte, hident]
      have hrest := (List.dropWhile_sublist isIdentByte (l := r)).length_le
      simpa [lexIdentOrKeyword, List.dropWhile_cons_of_pos hb] using hrest
    · obtain ⟨q, hq, rfl⟩ := map_ok h
      exact lexQuotedIdent_length r [] q hq

/-- The tokens of a text, ended by one that says so. -/
def tokeniseFrom (len : Nat) (bs : List UInt8) : Except LexError (List (Token F)) :=
  match _hs : skipWhitespaceAndComments bs with
  | [] => .ok [.eof]
  | b :: r => match _ht : (nextToken len b r : Except LexError (Token F × List UInt8)) with
    | .error e => .error e
    | .ok (tok, r') => (tokeniseFrom len r').map (tok :: ·)
termination_by bs.length
decreasing_by
  have hskip := skip_length false bs
  have htoken := nextToken_length len b r (tok, r') _ht
  rw [skipWhitespaceAndComments] at _hs
  rw [_hs, List.length_cons] at hskip
  dsimp only at htoken
  omega

def tokenise (text : List UInt8) : Except LexError (List (Token F)) :=
  tokeniseFrom text.length text

end Tokens

end InfraLens.Query
