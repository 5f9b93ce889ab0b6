import InfraLens.Ast
import InfraLens.LibParse
import InfraLens.Lexer

/-! The recursive-descent parser of IQL (parser.rs). The loops and the recursion through
parentheses have fuel; the functions of one level are given the parser of whole expressions. -/
namespace InfraLens.Query
open LibText
open LibParse (peek advance fail outOfFuel eatOptional optionally)

inductive ParseError (F : Type) where
  | expected (tok got : Token F)
  | expectedSelect (got : Token F)
  | expectedIdent (got : Token F)
  | expectedInt (got : Token F)
  | expectedString (got : Token F)
  | afterNot
  | unexpected (got : Token F)
  | invalidNumber (s : String)
  | unknownUnit (unit : String)

/-- The text of an error, given how tokens are shown. -/
def ParseError.message {F : Type} (debug : Token F → String) : ParseError F → String
  | .expected tok got => "expected " ++ debug tok ++ ", got " ++ debug got
  | .expectedSelect got => "expected SELECT, got " ++ debug got
  | .expectedIdent got => "expected identifier, got " ++ debug got
  | .expectedInt got => "expected integer, got " ++ debug got
  | .expectedString got => "expected string, got " ++ debug got
  | .afterNot => "expected IN or LIKE after NOT"
  | .unexpected got => "unexpected token in expression: " ++ debug got
  | .invalidNumber s => "invalid interval number in: '" ++ s ++ "'"
  | .unknownUnit unit => "unknown interval unit: " ++ unit

/-- The characters with the property `Alphabetic`. -/
class Alphabetic where
  isAlphabetic : Char → Bool
  ascii : ∀ c : Char, c.toNat < 128 → isAlphabetic c = c.isAlpha

@[reducible] def asciiLetters : Alphabetic where
  isAlphabetic := Char.isAlpha
  ascii := fun _ _ => rfl

inductive Statement (F : Type) where
  | select (s : SelectStatement F)

/-! ### Intervals -/

def nsPerUnit : String → Option Int64
  | "us" | "microsecond" | "microseconds" => some 1000
  | "ms" | "millisecond" | "milliseconds" | "millisec" => some 1000000
  | "s" | "sec" | "second" | "seconds" => some 1000000000
  | "m" | "min" | "minute" | "minutes" => some (60 * 1000000000)
  | "h" | "hr" | "hour" | "hours" => some (3600 * 1000000000)
  | "d" | "day" | "days" => some (86400 * 1000000000)
  | _ => none

/-- Nanoseconds; the product wraps. -/
def parseInterval {F : Type} [Alphabetic] (s : String) : Except (ParseError F) Int64 :=
  let cs := trim s.toList
  let numStr := trim (cs.takeWhile fun c => !Alphabetic.isAlphabetic c)
  let unit := String.ofList ((trim (cs.dropWhile fun c => !Alphabetic.isAlphabetic c)).map
    Char.toLower)
  match parseI64 numStr with
  | none => .error (.invalidNumber (String.ofList cs))
  | some num => match nsPerUnit unit with
    | none => .error (.unknownUnit unit)
    | some ns => .ok (num * ns)

theorem parseInterval_text {F : Type} [Alphabetic] (ds sp unit : List Char) (num ns : Int64)
    (hds : ∀ c ∈ ds, c.isDigit = true) (hsp : ∀ c ∈ sp, c = ' ')
    (hunit : ∀ c ∈ unit, c.isLower = true) (hne : unit ≠ []) (hnum : parseI64 ds = some num)
    (hns : nsPerUnit (String.ofList unit) = some ns) :
    parseInterval (F := F) (String.ofList (ds ++ sp ++ unit)) = .ok (num * ns) := by
  have hds_ne : ds ≠ [] := by
    rintro rfl
    cases hnum
  have hdigit : ∀ c ∈ ds, isWhitespace c = false := fun c hc => isWhitespace_digit c (hds c hc)
  have hlower : ∀ c ∈ unit, isWhitespace c = false := fun c hc => isWhitespace_lower c (hunit c hc)
  have hspace : ∀ c ∈ sp, isWhitespace c = true := by
    intro c hc
    rw [hsp c hc]
    decide
  -- the text is its own trimmed form, and its letters are the unit
  have htrim : trim (ds ++ sp ++ unit) = ds ++ sp ++ unit := by
    obtain ⟨d, ds', rfl⟩ := List.exists_cons_of_ne_nil hds_ne
    refine trim_of_ends _ ?_ ?_
    · intro c hc
      cases hc
      exact hdigit d List.mem_cons_self
    · intro c hc
      rw [List.getLast?_append_of_ne_nil _ hne] at hc
      exact hlower c (List.mem_of_getLast? hc)
  have htrimUnit : trim unit = unit :=
    trim_of_ends _ (fun c hc => hlower c (List.mem_of_mem_head? hc))
      (fun c hc => hlower c (List.mem_of_getLast? hc))
  have hnot : ∀ c ∈ ds ++ sp, (!Alphabetic.isAlphabetic c) = true := by
    intro c hc
    cases List.mem_append.mp hc with
    | inl hd =>
      have hbounds := (isDigit_iff c).mp (hds c hd)
      rw [Alphabetic.ascii c (by omega), isAlpha_digit c (hds c hd)]
      rfl
    | inr hs =>
      rw [hsp c hs, Alphabetic.ascii ' ' (by decide)]
      decide
  have halpha : ∀ a ∈ unit.head?, (!Alphabetic.isAlphabetic a) = false := by
    intro a ha
    have hmem := hunit a (List.mem_of_mem_head? ha)
    have hbounds := (isLower_iff a).mp hmem
    rw [Alphabetic.ascii a (by omega), isAlpha_lower a hmem]
    rfl
  obtain ⟨htake, hdrop⟩ := span_append hnot halpha
  have hmap : unit.map Char.toLower = unit := by
    refine (List.map_congr_left fun c hc => toLower_lower c (hunit c hc)).trans ?_
    exact List.map_id' unit
  simp only [parseInterval, String.toList_ofList, htrim, htake, hdrop,
    trim_append_spaces ds sp hdigit hspace hds_ne, hnum, htrimUnit, hmap, hns]

/-! ### Tokens -/

abbrev P (F : Type) := LibParse.Parser (Token F) (ParseError F)

section Parser
variable {F : Type}

def expectIdent : P F String := do
  let t ← advance
  match t with
  | .ident s => pure s
  | other => fail (.expectedIdent other)

def expectInt : P F Int64 := do
  let t ← advance
  match t with
  | .intLit n => pure n
  | other => fail (.expectedInt other)

def expectString : P F String := do
  let t ← advance
  match t with
  | .strLit s => pure s
  | other => fail (.expectedString other)

/-! ### Expressions -/

def orOp : Token F → Option (Expr F → Expr F → Expr F)
  | .or => some (.binOp .or)
  | _ => none

def andOp : Token F → Option (Expr F → Expr F → Expr F)
  | .and => some (.binOp .and)
  | _ => none

def notOp : Token F → Option (Expr F → Expr F)
  | .not => some (.unaryOp .not)
  | _ => none

def comparisonOp : Token F → Option BinOp
  | .eq => some .eq
  | .notEq => some .notEq
  | .lt => some .lt
  | .ltEq => some .ltEq
  | .gt => some .gt
  | .gtEq => some .gtEq
  | _ => none

def additionOp : Token F → Option (Expr F → Expr F → Expr F)
  | .plus => some (.binOp .add)
  | .minus => some (.binOp .sub)
  | _ => none

def multiplicationOp : Token F → Option (Expr F → Expr F → Expr F)
  | .star => some (.binOp .mul)
  | .slash => some (.binOp .div)
  | .percent => some (.binOp .mod)
  | _ => none

def unaryOp : Token F → Option (Expr F → Expr F)
  | .minus => some (.unaryOp .neg)
  | _ => none

section Tokens
variable [DecidableEq F]

def expect (tok : Token F) : P F Unit := LibParse.expect .expected tok

def parseCommaSeparated {α : Type} (n : Nat) (item : P F α) : P F (List α) :=
  LibParse.separated .comma item n

/-- `AS name`, or a name alone. -/
def parseAlias : P F (Option String) := do
  let t ← peek
  if t = .asKw then
    let _ ← advance
    let a ← expectIdent
    pure (some a)
  else match t with
    | .ident _ => do
      let a ← expectIdent
      pure (some a)
    | _ => pure none

def parseTableRef : P F TableRef := do
  let name ← expectIdent
  let aliasName ← parseAlias
  pure ⟨name, aliasName⟩

/-- The kind of the join that comes next, if there is one. -/
def parseJoinKind : P F (Option JoinKind) := do
  let t ← peek
  match t with
  | .join => do
    let _ ← advance
    pure (some .inner)
  | .inner => do
    let _ ← advance
    expect .join
    pure (some .inner)
  | .left => do
    let _ ← advance
    let _ ← eatOptional .inner
    expect .join
    pure (some .left)
  | .right => do
    let _ ← advance
    let _ ← eatOptional .inner
    expect .join
    pure (some .right)
  | _ => pure none

/-- `BY` and the list after it. -/
def parseBy {α : Type} (n : Nat) (item : P F α) : P F (List α) := do
  expect .byKw
  parseCommaSeparated n item

end Tokens

variable [DecidableEq F] [Alphabetic]

section Levels
variable (n : Nat) (expr : P F (Expr F))

def parseArgs : P F (List (Expr F)) := do
  let t ← peek
  if t = .rParen then pure [] else parseCommaSeparated n expr

/-- After a name: a qualified column, a function call or a column. -/
def parseName (name : String) : P F (Expr F) := do
  let t ← peek
  if t = .dot then
    let _ ← advance
    let col ← expectIdent
    pure (.column (some name) col)
  else if t = .lParen then
    let _ ← advance
    let args ← parseArgs n expr
    expect .rParen
    pure (.function (String.ofList (name.toList.map Char.toLower)) args)
  else pure (.column none name)

def parsePrimary : P F (Expr F) := do
  let t ← peek
  match t with
  | .intLit i => do let _ ← advance; pure (.literal (.int i))
  | .floatLit f => do let _ ← advance; pure (.literal (.float f))
  | .strLit s => do let _ ← advance; pure (.literal (.str s))
  | .trueKw => do let _ ← advance; pure (.literal (.bool true))
  | .falseKw => do let _ ← advance; pure (.literal (.bool false))
  | .null => do let _ ← advance; pure (.literal .null)
  | .star => do let _ ← advance; pure .star
  | .lParen => do
    let _ ← advance
    let e ← expr
    expect .rParen
    pure e
  | .interval => do
    let _ ← advance
    let s ← expectString
    let ns ← LibParse.ofResult (parseInterval s)
    pure (.interval ns)
  | .ident name => do
    let _ ← advance
    parseName n expr name
  | other => fail (.unexpected other)

def parseUnary : P F (Expr F) := LibParse.prefixed unaryOp (parsePrimary n expr) n

def parseMultiplication : P F (Expr F) := LibParse.chain multiplicationOp (parseUnary n expr) n

def parseAddition : P F (Expr F) := LibParse.chain additionOp (parseMultiplication n expr) n

def parseInList : P F (List (Expr F)) := do
  expect .lParen
  let list ← parseCommaSeparated n expr
  expect .rParen
  pure list

/-- What may stand after the left side of a comparison. -/
def parseComparisonRest (left : Expr F) : P F (Expr F) := do
  let t ← peek
  match comparisonOp t with
  | some op => do
    let _ ← advance
    let right ← parseAddition n expr
    pure (.binOp op left right)
  | none => match t with
    | .is => do
      let _ ← advance
      let negated ← eatOptional .not
      expect .null
      pure (if negated then .isNotNull left else .isNull left)
    | .between => do
      let _ ← advance
      let low ← parseAddition n expr
      expect .and
      let high ← parseAddition n expr
      pure (.between left low high)
    | .not => do
      let _ ← advance
      let t ← peek
      match t with
      | .inKw => do
        let _ ← advance
        let list ← parseInList n expr
        pure (.unaryOp .not (.inList left list))
      | .like => do
        let _ ← advance
        let pattern ← expectString
        pure (.like left pattern true)
      | _ => fail .afterNot
    | .inKw => do
      let _ ← advance
      let list ← parseInList n expr
      pure (.inList left list)
    | .like => do
      let _ ← advance
      let pattern ← expectString
      pure (.like left pattern false)
    | _ => pure left

def parseComparison : P F (Expr F) := do
  let left ← parseAddition n expr
  parseComparisonRest n expr left

def parseNot : P F (Expr F) := LibParse.prefixed notOp (parseComparison n expr) n

def parseAnd : P F (Expr F) := LibParse.chain andOp (parseNot n expr) n

def parseOr : P F (Expr F) := LibParse.chain orOp (parseAnd n expr) n

end Levels

def parseExpr : Nat → P F (Expr F)
  | 0 => outOfFuel
  | n + 1 => parseOr n (parseExpr n)

/-! ### Statements -/

section Statements
variable (n : Nat)

def parseProjection : P F (Projection F) := do
  let t ← peek
  if t = .star then
    let _ ← advance
    pure .star
  else
    let e ← parseExpr n
    let aliasName ← parseAlias
    pure (.expr e aliasName)

def parseProjections : P F (List (Projection F)) := parseCommaSeparated n (parseProjection n)

def parseJoinsLoop : Nat → List (JoinClause F) → P F (List (JoinClause F))
  | 0, _ => outOfFuel
  | k + 1, joins => do
    let kind ← parseJoinKind
    match kind with
    | none => pure joins
    | some kind => do
      let table ← parseTableRef
      expect .on
      let condition ← parseExpr n
      parseJoinsLoop k (joins ++ [⟨kind, table, condition⟩])

def parseJoins : P F (List (JoinClause F)) := parseJoinsLoop n n []

def parseOrderByItem : P F (OrderByItem F) := do
  let e ← parseExpr n
  let t ← peek
  match t with
  | .asc => do
    let _ ← advance
    pure ⟨e, true⟩
  | .desc => do
    let _ ← advance
    pure ⟨e, false⟩
  | _ => pure ⟨e, true⟩

def parseSelect : P F (SelectStatement F) := do
  expect .select
  let _ ← eatOptional .distinct
  let projections ← parseProjections n
  expect .fromKw
  let table ← parseTableRef
  let joins ← parseJoins n
  let filter ← optionally .whereKw (parseExpr n)
  let groupBy ← optionally .group (parseBy n (parseExpr n))
  let having ← optionally .having (parseExpr n)
  let orderBy ← optionally .order (parseBy n (parseOrderByItem n))
  let limit ← optionally .limit expectInt
  let offset ← optionally .offset expectInt
  pure ⟨projections, table, joins, filter, groupBy.getD [], having, orderBy.getD [],
    limit.map Int64.toUInt64, offset.map Int64.toUInt64⟩

def statement : P F (Statement F) := do
  let t ← peek
  if t = .select then
    let s ← parseSelect n
    let _ ← eatOptional .semicolon
    expect .eof
    pure (.select s)
  else fail (.expectedSelect t)

/-- How parsing a list of tokens ends. An empty list has no first token to look at. -/
inductive Outcome (F : Type) where
  | ok (s : Statement F)
  | error (e : ParseError F)
  | outOfFuel
  | panic

def parseStatement (tokens : List (Token F)) : Outcome F :=
  match tokens with
  | [] => .panic
  | t :: ts => match (statement n).run ⟨t, ts⟩ with
    | .ok (s, _) => .ok s
    | .error (.error e) => .error e
    | .error .outOfFuel => .outOfFuel

end Statements

end Parser

end InfraLens.Query
