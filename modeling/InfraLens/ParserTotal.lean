import InfraLens.Lexing
import InfraLens.LibScript
import InfraLens.Parser

/-! The parser on the tokens of the lexer, which end with `Eof` and have it nowhere else: it ends
whatever the tokens are, stays inside them, and accepts only at the `Eof`. Each function needs fuel
for the tokens left; a recursion through parentheses comes after a token that is passed over. -/
namespace InfraLens.Query
open LibExcept
open LibParse (Steady SteadyAt ReadsAll Script Indexed)

section Parser
variable {F : Type} {N : Nat}

theorem steady_expectIdent : Steady .eof N (expectIdent : P F String) expectIdent := by
  refine Steady.advance.bind fun t => ?_
  intro u
  cases t with
  | ident s => exact SteadyAt.pure s
  | _ => exact SteadyAt.fail _

theorem steady_expectInt : Steady .eof N (expectInt : P F Int64) expectInt := by
  refine Steady.advance.bind fun t => ?_
  intro u
  cases t with
  | intLit n => exact SteadyAt.pure n
  | _ => exact SteadyAt.fail _

theorem steady_expectString : Steady .eof N (expectString : P F String) expectString := by
  refine Steady.advance.bind fun t => ?_
  intro u
  cases t with
  | strLit s => exact SteadyAt.pure s
  | _ => exact SteadyAt.fail _

section Tokens
variable [DecidableEq F]

theorem steady_expect (tok : Token F) : Steady .eof N (expect tok) (expect tok) :=
  Steady.expect ParseError.expected tok

theorem steady_commaSeparated {α : Type} {n m : Nat} {item item' : P F α} (hN : N ≤ n + 1)
    (hnm : n ≤ m) (h : Steady .eof N item item') :
    Steady .eof N (parseCommaSeparated n item) (parseCommaSeparated m item') :=
  Steady.separated (by simp) hN hnm h

theorem steady_alias : Steady .eof N (parseAlias : P F (Option String)) parseAlias := by
  have hname : Steady (.eof : Token F) N (expectIdent >>= fun a => pure (some a))
      (expectIdent >>= fun a => pure (some a)) :=
    steady_expectIdent.bind fun a => Steady.pure (some a)
  refine Steady.peek fun t => ?_
  by_cases has : t = .asKw
  · rw [if_pos has]
    exact (Steady.advance t).bind fun _ => hname
  · rw [if_neg has]
    cases t with
    | ident s => exact hname _
    | _ => exact SteadyAt.pure none

theorem steady_tableRef : Steady .eof N (parseTableRef : P F TableRef) parseTableRef :=
  steady_expectIdent.bind fun _ => steady_alias.bind fun _ => Steady.pure _

theorem steady_joinKind {α : Type} {k l : Option JoinKind → P F α}
    (hsome : ∀ kind, Steady .eof (N - 1) (k (some kind)) (l (some kind)))
    (hnone : Steady .eof N (k none) (l none)) :
    Steady .eof N (parseJoinKind >>= k) (parseJoinKind >>= l) := by
  rw [parseJoinKind, bind_assoc, bind_assoc]
  refine Steady.peek fun t => ?_
  cases t with
  | join =>
    simp only [bind_assoc, pure_bind]
    exact SteadyAt.advance_pred (by simp) fun _ => hsome .inner
  | inner =>
    simp only [bind_assoc, pure_bind]
    exact SteadyAt.advance_pred (by simp) fun _ => (steady_expect _).bind fun _ => hsome .inner
  | left =>
    simp only [bind_assoc, pure_bind]
    refine SteadyAt.advance_pred (by simp) fun _ => (Steady.eatOptional _).bind fun _ => ?_
    exact (steady_expect _).bind fun _ => hsome .left
  | right =>
    simp only [bind_assoc, pure_bind]
    refine SteadyAt.advance_pred (by simp) fun _ => (Steady.eatOptional _).bind fun _ => ?_
    exact (steady_expect _).bind fun _ => hsome .right
  | _ => exact hnone _

theorem steady_by {α : Type} {n m : Nat} {item item' : P F α} (hN : N ≤ n + 1) (hnm : n ≤ m)
    (h : Steady .eof N item item') : Steady .eof N (parseBy n item) (parseBy m item') :=
  (steady_expect _).bind fun _ => steady_commaSeparated hN hnm h

end Tokens

variable [DecidableEq F] [Alphabetic]

section Levels
variable {n m : Nat} {expr expr' : P F (Expr F)} (hnm : n ≤ m) (hexpr : Steady .eof n expr expr')
include hnm hexpr

omit [Alphabetic] in
theorem steady_args : Steady .eof n (parseArgs n expr) (parseArgs m expr') :=
  Steady.branch Token.rParen (SteadyAt.pure []) (steady_commaSeparated (Nat.le_succ n) hnm hexpr)

omit [Alphabetic] in
theorem steady_name (name : String) : Steady .eof n (parseName n expr name)
    (parseName m expr' name) := by
  refine Steady.peek fun t => ?_
  by_cases hdot : t = .dot
  · rw [if_pos hdot, if_pos hdot]
    exact (Steady.advance t).bind fun _ => steady_expectIdent.bind fun _ => Steady.pure _
  rw [if_neg hdot, if_neg hdot]
  by_cases hparen : t = .lParen
  · rw [if_pos hparen, if_pos hparen]
    refine (Steady.advance t).bind fun _ => (steady_args hnm hexpr).bind fun _ => ?_
    exact (steady_expect _).bind fun _ => Steady.pure _
  · rw [if_neg hparen, if_neg hparen]
    exact SteadyAt.pure _

/-- Whole expressions come after a parenthesis or a name, so they need fuel for fewer tokens. -/
theorem steady_primary : Steady .eof (n + 1) (parsePrimary n expr) (parsePrimary m expr') := by
  refine Steady.peek fun t => ?_
  cases t with
  | intLit i => exact (Steady.advance _).bind fun _ => Steady.pure _
  | floatLit f => exact (Steady.advance _).bind fun _ => Steady.pure _
  | strLit s => exact (Steady.advance _).bind fun _ => Steady.pure _
  | trueKw => exact (Steady.advance _).bind fun _ => Steady.pure _
  | falseKw => exact (Steady.advance _).bind fun _ => Steady.pure _
  | null => exact (Steady.advance _).bind fun _ => Steady.pure _
  | star => exact (Steady.advance _).bind fun _ => Steady.pure _
  | lParen =>
    refine SteadyAt.advance_pred (by simp) fun _ => hexpr.bind fun _ => ?_
    exact (steady_expect _).bind fun _ => Steady.pure _
  | interval =>
    refine (Steady.advance _).bind fun _ => steady_expectString.bind fun s => ?_
    exact (Steady.ofResult _).bind fun _ => Steady.pure _
  | ident name => exact SteadyAt.advance_pred (by simp) fun _ => steady_name hnm hexpr name
  | _ => exact SteadyAt.fail _

theorem steady_unary : Steady .eof (n + 1) (parseUnary n expr) (parseUnary m expr') :=
  Steady.prefixed rfl (Nat.le_refl _) hnm (steady_primary hnm hexpr)

theorem steady_multiplication :
    Steady .eof (n + 1) (parseMultiplication n expr) (parseMultiplication m expr') :=
  Steady.chain rfl (Nat.le_refl _) hnm (steady_unary hnm hexpr)

theorem steady_addition : Steady .eof (n + 1) (parseAddition n expr) (parseAddition m expr') :=
  Steady.chain rfl (Nat.le_refl _) hnm (steady_multiplication hnm hexpr)

omit [Alphabetic] in
theorem steady_inList : Steady .eof n (parseInList n expr) (parseInList m expr') := by
  refine (steady_expect _).bind fun _ => ?_
  refine (steady_commaSeparated (Nat.le_succ n) hnm hexpr).bind fun _ => ?_
  exact (steady_expect _).bind fun _ => Steady.pure _

theorem steady_comparisonRest (left : Expr F) :
    Steady .eof (n + 1) (parseComparisonRest n expr left) (parseComparisonRest m expr' left) := by
  have haddition := steady_addition hnm hexpr
  have hlist := steady_inList hnm hexpr
  refine Steady.peek fun t => ?_
  cases hop : comparisonOp t with
  | some op =>
    exact (Steady.advance t).bind fun _ => haddition.bind fun _ => Steady.pure _
  | none =>
    cases t with
    | is =>
      refine (Steady.advance _).bind fun _ => (Steady.eatOptional _).bind fun _ => ?_
      exact (steady_expect _).bind fun _ => Steady.pure _
    | between =>
      refine (Steady.advance _).bind fun _ => haddition.bind fun _ => ?_
      exact (steady_expect _).bind fun _ => haddition.bind fun _ => Steady.pure _
    | not =>
      refine (Steady.advance _).bind fun _ => Steady.peek fun u => ?_
      cases u with
      | inKw => exact SteadyAt.advance_pred (by simp) fun _ => hlist.bind fun _ => Steady.pure _
      | like =>
        exact (Steady.advance _).bind fun _ => steady_expectString.bind fun _ => Steady.pure _
      | _ => exact SteadyAt.fail _
    | inKw => exact SteadyAt.advance_pred (by simp) fun _ => hlist.bind fun _ => Steady.pure _
    | like =>
      exact (Steady.advance _).bind fun _ => steady_expectString.bind fun _ => Steady.pure _
    | _ => exact SteadyAt.pure left

theorem steady_comparison :
    Steady .eof (n + 1) (parseComparison n expr) (parseComparison m expr') :=
  (steady_addition hnm hexpr).bind fun left => steady_comparisonRest hnm hexpr left

theorem steady_not : Steady .eof (n + 1) (parseNot n expr) (parseNot m expr') :=
  Steady.prefixed rfl (Nat.le_refl _) hnm (steady_comparison hnm hexpr)

theorem steady_and : Steady .eof (n + 1) (parseAnd n expr) (parseAnd m expr') :=
  Steady.chain rfl (Nat.le_refl _) hnm (steady_not hnm hexpr)

theorem steady_or : Steady .eof (n + 1) (parseOr n expr) (parseOr m expr') :=
  Steady.chain rfl (Nat.le_refl _) hnm (steady_and hnm hexpr)

end Levels

theorem steady_expr {n m : Nat} (hnm : n ≤ m) :
    Steady .eof n (parseExpr n : P F (Expr F)) (parseExpr m) := by
  induction n generalizing m with
  | zero => exact Steady.outOfFuel (Nat.zero_le 1) _
  | succ n ih =>
    obtain ⟨m, rfl⟩ := Nat.exists_eq_add_one_of_ne_zero (Nat.ne_zero_of_lt hnm)
    have hle := Nat.le_of_succ_le_succ hnm
    exact steady_or hle (ih hle)

/-! ### Statements -/

section Statements
variable {n m : Nat} (hnm : n ≤ m)
include hnm

theorem steady_projection :
    Steady .eof n (parseProjection n : P F (Projection F)) (parseProjection m) := by
  refine Steady.branch Token.star ((Steady.advance _).bind fun _ => Steady.pure _) ?_
  exact (steady_expr hnm).bind fun _ => steady_alias.bind fun _ => Steady.pure _

theorem steady_projections :
    Steady .eof n (parseProjections n : P F (List (Projection F))) (parseProjections m) :=
  steady_commaSeparated (Nat.le_succ n) hnm (steady_projection hnm)

theorem steady_joinsLoop {N k k' : Nat} (hN : N ≤ n) (hk : N ≤ k + 1) (hle : k ≤ k')
    (joins : List (JoinClause F)) :
    Steady .eof N (parseJoinsLoop n k joins) (parseJoinsLoop m k' joins) := by
  induction k generalizing N k' joins with
  | zero => exact Steady.outOfFuel hk _
  | succ k ih =>
    obtain ⟨k', rfl⟩ := Nat.exists_eq_add_one_of_ne_zero (Nat.ne_zero_of_lt hle)
    refine steady_joinKind (fun kind => ?_) (Steady.pure joins)
    refine steady_tableRef.bind fun table => (steady_expect _).bind fun _ => ?_
    refine ((steady_expr hnm).mono (by omega)).bind fun condition => ?_
    exact ih (by omega) (by omega) (Nat.le_of_succ_le_succ hle) _

theorem steady_joins : Steady .eof n (parseJoins n : P F (List (JoinClause F))) (parseJoins m) :=
  steady_joinsLoop hnm (Nat.le_refl n) (Nat.le_succ n) hnm []

theorem steady_orderByItem :
    Steady .eof n (parseOrderByItem n : P F (OrderByItem F)) (parseOrderByItem m) := by
  refine (steady_expr hnm).bind fun e => Steady.peek fun t => ?_
  cases t with
  | asc => exact (Steady.advance _).bind fun _ => Steady.pure _
  | desc => exact (Steady.advance _).bind fun _ => Steady.pure _
  | _ => exact SteadyAt.pure _

theorem steady_select :
    Steady .eof n (parseSelect n : P F (SelectStatement F)) (parseSelect m) := by
  have hexpr : Steady .eof n (parseExpr n : P F (Expr F)) (parseExpr m) := steady_expr hnm
  refine (steady_expect _).bind fun _ => (Steady.eatOptional _).bind fun _ => ?_
  refine (steady_projections hnm).bind fun _ => (steady_expect _).bind fun _ => ?_
  refine steady_tableRef.bind fun _ => (steady_joins hnm).bind fun _ => ?_
  refine (Steady.optionally _ hexpr).bind fun _ => ?_
  refine (Steady.optionally _ (steady_by (Nat.le_succ n) hnm hexpr)).bind fun _ => ?_
  refine (Steady.optionally _ hexpr).bind fun _ => ?_
  refine (Steady.optionally _ (steady_by (Nat.le_succ n) hnm (steady_orderByItem hnm))).bind
    fun _ => ?_
  refine (Steady.optionally _ steady_expectInt).bind fun _ => ?_
  exact (Steady.optionally _ steady_expectInt).bind fun _ => Steady.pure _

theorem steady_statement :
    Steady .eof n (statement n : P F (Statement F)) (statement m) := by
  refine Steady.peek fun t => ?_
  by_cases ht : t = .select
  · rw [if_pos ht, if_pos ht]
    refine (steady_select hnm t).bind fun _ => (Steady.eatOptional _).bind fun _ => ?_
    exact (steady_expect _).bind fun _ => Steady.pure _
  · rw [if_neg ht, if_neg ht]
    exact SteadyAt.fail _

end Statements

theorem readsAll_statement (n : Nat) : ReadsAll .eof n (statement n : P F (Statement F)) := by
  refine ReadsAll.peek fun t => ?_
  by_cases ht : t = .select
  · rw [if_pos ht]
    refine ReadsAll.bind (steady_select (Nat.le_refl n)) fun s => ?_
    refine ReadsAll.bind (Steady.eatOptional _) fun _ => ?_
    exact ReadsAll.expect ParseError.expected _
  · rw [if_neg ht]
    exact ReadsAll.fail _

theorem settled_statement (ts : List (Token F)) (h : .eof ∉ ts) {n : Nat} (hn : ts.length + 1 < n) :
    LibParse.Settled .eof ts
      ((statement (ts.length + 2) : P F (Statement F)).run (LibParse.Cursor.ending .eof ts))
      ((statement n).run (LibParse.Cursor.ending .eof ts)) :=
  (steady_statement hn _).settled ts h rfl (Nat.lt_succ_self _)

/-- On tokens ended by their only `Eof` the parser looks at tokens and passes over them, always
inside the list, and its outcome is the same with any fuel for more tokens than there are: an
error, or a statement with the position at the `Eof`. -/
theorem parser_total (ts : List (Token F)) (h : .eof ∉ ts) :
    ∃ r : Indexed (ParseError F) (Statement F),
      ((∃ e, r = .failed (.error e)) ∨ ∃ s, r = .ok s ts.length) ∧
      ∀ n, ts.length + 1 < n → ∃ script : Script (Token F) (ParseError F) (Statement F),
        script.run = statement n ∧ script.runAt (ts ++ [.eof]) 0 = r := by
  have hfuel := Nat.lt_succ_self (ts.length + 1)
  let start := LibParse.Cursor.ending .eof ts
  refine ⟨LibParse.indexed (ts ++ [.eof]) ((statement (ts.length + 2)).run start), ?_, ?_⟩
  · obtain ⟨_, hends⟩ := settled_statement ts h hfuel
    cases hends with
    | inl herror =>
      obtain ⟨e, hrun⟩ := herror
      rw [hrun]
      exact Or.inl ⟨e, rfl⟩
    | inr hok =>
      obtain ⟨s, us, _, hrun⟩ := hok
      have hend := readsAll_statement _ ts h hfuel s _ hrun
      rw [hrun, hend]
      refine Or.inr ⟨s, congrArg (Indexed.ok s) ?_⟩
      rw [List.length_append]
      rfl
  · intro n hn
    obtain ⟨script, hscript⟩ := (steady_statement (Nat.le_refl n) (F := F) .eof).scripted
    refine ⟨script, hscript, ?_⟩
    rw [script.runAt_eq _ 0 start (LibParse.Cursor.at_ending .eof ts), hscript]
    obtain ⟨hsame, _⟩ := settled_statement ts h hn
    rw [hsame]

omit [Alphabetic] in
/-- `SELECT * FROM logs`. -/
theorem parser_total_logs :
    (.eof : Token String) ∉ [.select, .star, .fromKw, .ident "logs"] ∧
    ∃ r : Indexed (ParseError String) (Statement String),
      ((∃ e, r = .failed (.error e)) ∨ ∃ s, r = .ok s 4) ∧
      ∀ n, 5 < n → ∃ script : Script (Token String) (ParseError String) (Statement String),
        script.run = @statement String _ asciiLetters n ∧
        script.runAt [.select, .star, .fromKw, .ident "logs", .eof] 0 = r :=
  ⟨by decide, @parser_total String _ asciiLetters [.select, .star, .fromKw, .ident "logs"]
    (by decide)⟩

/-! ### The lexer's tokens -/

theorem parseStatement_steady (ts : List (Token F)) (h : .eof ∉ ts) :
    ∃ r : Outcome F, ((∃ e, r = .error e) ∨ ∃ s, r = .ok s) ∧
      ∀ n, ts.length + 1 < n → parseStatement n (ts ++ [.eof]) = r := by
  obtain ⟨t, us, htokens, hcursor⟩ := LibParse.Cursor.before_toList ts .eof
  change _ = LibParse.Cursor.ending .eof ts at hcursor
  refine ⟨parseStatement (ts.length + 2) (ts ++ [.eof]), ?_, ?_⟩
  · obtain ⟨_, hends⟩ := settled_statement ts h (Nat.lt_succ_self _)
    rw [htokens, parseStatement, hcursor]
    cases hends with
    | inl herror =>
      obtain ⟨e, hrun⟩ := herror
      rw [hrun]
      exact Or.inl ⟨e, rfl⟩
    | inr hok =>
      obtain ⟨s, us, _, hrun⟩ := hok
      rw [hrun]
      exact Or.inr ⟨s, rfl⟩
  · intro n hn
    obtain ⟨hsame, _⟩ := settled_statement ts h hn
    rw [htokens, parseStatement, parseStatement, hcursor, hsame]

end Parser

section Lexer
variable {F : Type}

theorem punctuation_ne_eof (c : Char) (t : Token F) (h : punctuation c = some t) : t ≠ .eof := by
  unfold punctuation at h
  split at h <;> cases h <;> simp

theorem keyword_ne_eof (word : String) (t : Token F) (h : keyword word = some t) : t ≠ .eof := by
  unfold keyword at h
  split at h <;> cases h <;> simp

theorem wordToken_ne_eof (word : List Char) : (wordToken word : Token F) ≠ .eof := by
  unfold wordToken
  cases hword : (keyword (String.ofList (word.map Char.toUpper)) : Option (Token F)) with
  | none => simp
  | some t => exact keyword_ne_eof _ t hword

variable [FloatText F]

theorem lexNumber_ne_eof (bs : List UInt8) (p : Token F × List UInt8)
    (h : lexNumber bs = .ok p) : p.1 ≠ .eof := by
  unfold lexNumber at h
  dsimp only at h
  split_ifs at h
  all_goals
    split at h
    · cases h
      simp
    · cases h

theorem nextToken_ne_eof (len : Nat) (b : UInt8) (r : List UInt8) (p : Token F × List UInt8)
    (h : nextToken len b r = .ok p) : p.1 ≠ .eof := by
  unfold nextToken at h
  dsimp only at h
  split at h
  next t ht =>
    cases h
    exact punctuation_ne_eof _ t ht
  · split_ifs at h
    all_goals try (cases h; simp; done)
    · obtain ⟨q, _, rfl⟩ := map_ok h
      simp
    · exact lexNumber_ne_eof _ p h
    · cases h
      exact wordToken_ne_eof _
    · obtain ⟨q, _, rfl⟩ := map_ok h
      simp

theorem tokeniseFrom_ends (len : Nat) (bs : List UInt8) (tokens : List (Token F))
    (h : tokeniseFrom len bs = .ok tokens) : ∃ ts, tokens = ts ++ [.eof] ∧ .eof ∉ ts := by
  fun_induction tokeniseFrom (F := F) len bs generalizing tokens with
  | case1 bs hs =>
    cases h
    exact ⟨[], rfl, List.not_mem_nil⟩
  | case2 bs b r hs e he => cases h
  | case3 bs b r hs t r' ht ih =>
    obtain ⟨rest, hrest, rfl⟩ := map_ok h
    obtain ⟨ts, rfl, hts⟩ := ih rest hrest
    refine ⟨t :: ts, rfl, ?_⟩
    rw [List.mem_cons, not_or]
    exact ⟨(nextToken_ne_eof len b r (t, r') ht).symm, hts⟩

theorem parseStatement_lexed [DecidableEq F] [Alphabetic] (text : List UInt8)
    (tokens : List (Token F)) (h : tokenise text = .ok tokens) :
    ∃ r : Outcome F, ((∃ e, r = .error e) ∨ ∃ s, r = .ok s) ∧
      ∀ n, tokens.length < n → parseStatement n tokens = r := by
  obtain ⟨ts, rfl, hts⟩ := tokeniseFrom_ends _ _ _ h
  rw [List.length_append]
  exact parseStatement_steady ts hts

end Lexer

end InfraLens.Query
