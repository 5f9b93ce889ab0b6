import InfraLens.Grammar
import InfraLens.TextReading

/-! The engine's lexer and parser accept what the copilot's grammar derives. -/
namespace InfraLens.Copilot
open Query LibText LibGbnf Form
open LibParse (joined)

/-- Integers that fit in 64 bits with a sign, and strings without NUL; the other rules are free. -/
def LexemeOk : Rule → List Char → Prop
  | .integer, w => ∀ n, parseNat w = some n → n < 2 ^ 63
  | .stringLit, w => ∀ c ∈ w, c.toNat ≠ 0
  | _, _ => True

def Integer (w : List Char) : Prop :=
  (∀ c ∈ w, c.isDigit = true) ∧ ∃ i, parseI64 w = some i

def TimeUnit (w : List Char) : Prop :=
  (∀ c ∈ w, c.isLower = true) ∧ w ≠ [] ∧ ∃ ns, nsPerUnit (String.ofList w) = some ns

theorem isName_all : (defaultTables.map Prod.fst ++ defaultTables.flatMap Prod.snd ++
    allFunctions).all (fun s => isName s.toList) = true := by
  decide +kernel

theorem interval_chars (ds sp unit : List Char) (hds : ∀ c ∈ ds, c.isDigit = true)
    (hsp : ∀ c ∈ sp, c = ' ') (hunit : ∀ c ∈ unit, c.isLower = true) :
    ∀ c ∈ ds ++ sp ++ unit, 32 ≤ c.toNat ∧ c.toNat < 128 ∧ c.toNat ≠ 39 := by
  intro c hc
  rw [List.mem_append, List.mem_append] at hc
  obtain (hd | hs) | hu := hc
  · have hbounds := (isDigit_iff c).mp (hds c hd)
    omega
  · rw [hsp c hs]
    decide
  · have hbounds := (isLower_iff c).mp (hunit c hu)
    omega

section Accepted
variable (F : Type) [FloatText F] [Alphabetic]

/-- What the engine makes of the texts of each rule. -/
def Accepted : Rule → List Char → Prop
  | .root, w | .selectStmt, w => ∃ s : Clauses F, Lexes Anything w (s.tokens ++ [.semicolon])
  | .ws, w => ∀ c ∈ w, c = ' '
  | .commaWs, w => w = [',', ' ']
  | .tableName, w | .columnName, w | .funcName, w => isName w = true
  | .integer, w => Integer w
  | .floatLit, w => ∃ f : F, Lexes Delimits w [.floatLit f]
  | .stringLit, w => ∃ s, Lexes (F := F) Delimits w [.strLit s]
  | .intervalUnit, w => TimeUnit w
  | .binop, w => ∃ t op, comparisonOp t = some op ∧ Follows (F := F) Anything w [t]
  | .literal, w | .intervalExpr, w | .funcCall, w | .primaryExpr, w =>
    Text (F := F) (Reads .primary) w
  | .multExpr, w => Text (F := F) (Reads .multiplication) w
  | .addExpr, w => Text (F := F) (Reads .addition) w
  | .cmpExpr, w => Text (F := F) (Reads .comparison) w
  | .andExpr, w => Text (F := F) (Reads .and) w
  | .expr, w => Text (F := F) (Reads .or) w
  | .exprList, w => Texts (F := F) (Reads .or) w
  | .asAlias, w => ∃ a, Follows (F := F) Delimits w (aliasTokens (some a))
  | .projection, w => Text (F := F) ReadsProjection w
  | .projStar, w => w = ['*']
  | .projections, w => Texts (F := F) ReadsProjection w
  | .orderDir, w => ∃ t, (t = .asc ∨ t = .desc) ∧ Follows (F := F) Delimits w [t]
  | .orderItem, w => Text (F := F) ReadsOrderItem w
  | .orderList, w => Texts (F := F) ReadsOrderItem w
  | .limitClause, w => CountText (F := F) .limit w
  | .offsetClause, w => CountText (F := F) .offset w
  | .groupClause, w => ListClauseText (F := F) .group (Reads .or) w
  | .havingClause, w => ClauseText (F := F) .having (Reads .or) w
  | .whereClause, w => ClauseText (F := F) .whereKw (Reads .or) w

variable {F} {w : List Char} (selectedTable : Option String)

abbrev rules (selectedTable : Option String) : Rule → Form Rule :=
  buildGbnfGrammar (some defaultTables) selectedTable

/-! ### Names and literals -/

theorem accepts_ws (h : Matches (Accepted F) (rules selectedTable .ws) w) : ∀ c ∈ w, c = ' ' := by
  simp only [buildGbnfGrammar, Form.plus, Matches, matchesSeq_cons, matchesSeq_single] at h
  obtain ⟨_, _, rfl, rfl, us, rfl, hus⟩ := h
  have hspaces : ∀ c ∈ us.flatten, c = ' ' := by
    intro c hc
    obtain ⟨u, hu, hcu⟩ := List.mem_flatten.mp hc
    rw [hus u hu] at hcu
    exact List.mem_singleton.mp hcu
  exact List.forall_mem_cons.mpr ⟨rfl, hspaces⟩

theorem accepts_tableName (h : Matches (Accepted F) (rules selectedTable .tableName) w) :
    isName w = true := by
  obtain ⟨t, ht, rfl⟩ := (matches_oneOf _).mp h
  exact List.all_eq_true.mp isName_all t
    (List.mem_append_left _ (List.mem_append_left _ ht))

theorem accepts_columnName (h : Matches (Accepted F) (rules selectedTable .columnName) w) :
    isName w = true := by
  obtain ⟨c, hc, rfl⟩ := (matches_oneOf _).mp h
  have hcolumn := List.mem_flatMap.mpr (mem_colNames defaultTables selectedTable c hc)
  exact List.all_eq_true.mp isName_all c
    (List.mem_append_left _ (List.mem_append_right _ hcolumn))

theorem accepts_funcName (h : Matches (Accepted F) (rules selectedTable .funcName) w) :
    isName w = true := by
  obtain ⟨f, hf, rfl⟩ := (matches_oneOf _).mp h
  exact List.all_eq_true.mp isName_all f (List.mem_append_right _ hf)

theorem accepts_integer (hok : LexemeOk .integer w)
    (h : Matches (Accepted F) (rules selectedTable .integer) w) : Integer w := by
  obtain ⟨hne, hdigits⟩ := (matches_plus_chars _).mp h
  exact ⟨hdigits, parseI64_digits w hne hdigits hok⟩

theorem accepts_floatLit (h : Matches (Accepted F) (rules selectedTable .floatLit) w) :
    ∃ f : F, Lexes Delimits w [.floatLit f] := by
  simp only [buildGbnfGrammar, Matches, matchesSeq_cons, matchesSeq_single,
    matches_plus_chars] at h
  obtain ⟨ds, _, rfl, ⟨hds_ne, hds⟩, _, fs, rfl, rfl, hfs_ne, hfs⟩ := h
  refine lexes_float ds fs ?_ hds_ne hfs_ne
  intro c hc
  cases List.mem_append.mp hc with
  | inl hmem => exact hds c hmem
  | inr hmem => exact hfs c hmem

theorem accepts_stringLit (hok : LexemeOk .stringLit w)
    (h : Matches (Accepted F) (rules selectedTable .stringLit) w) :
    ∃ s, Lexes (F := F) Delimits w [.strLit s] := by
  simp only [buildGbnfGrammar, ↓matches_many_chars, Matches, matchesSeq_cons,
    matchesSeq_single] at h
  obtain ⟨_, _, rfl, rfl, body, _, rfl, hbody, rfl⟩ := h
  refine ⟨_, lexes_string body fun c hc => ⟨of_decide_eq_true (hbody c hc), hok c ?_⟩⟩
  exact List.mem_append_right _ (List.mem_append_left _ hc)

theorem text_literal (lit : Literal F) (t : Token F) (hlit : literalToken lit = some t)
    (h : Lexes Delimits w [t]) : Text (F := F) (Reads .primary) w :=
  ⟨[t], .literal lit, h, Reads.literal hlit⟩

theorem accepts_literal (h : Matches (Accepted F) (rules selectedTable .literal) w) :
    Text (F := F) (Reads .primary) w := by
  simp only [buildGbnfGrammar, Matches, MatchesAlt, Accepted, or_false] at h
  obtain ⟨hds, i, hi⟩ | ⟨f, hf⟩ | ⟨s, hs⟩ | rfl | rfl | rfl := h
  · exact text_literal (.int i) _ rfl (lexes_integer w i hds hi)
  · exact text_literal (.float f) _ rfl hf
  · exact text_literal (.str s) _ rfl hs
  · exact text_literal (.bool true) _ rfl (lexes_keyword _ _ rfl rfl)
  · exact text_literal (.bool false) _ rfl (lexes_keyword _ _ rfl rfl)
  · exact text_literal .null _ rfl (lexes_keyword _ _ rfl rfl)

/-! ### Intervals -/

theorem accepts_intervalUnit (h : Matches (Accepted F) (rules selectedTable .intervalUnit) w) :
    TimeUnit w := by
  have hunits : ∀ s ∈ ["minutes", "hours", "seconds", "days", "m", "h", "s", "d"],
      (s.toList.all Char.isLower && !s.toList.isEmpty && (nsPerUnit s).isSome) = true := by
    decide +kernel
  obtain ⟨s, hs, rfl⟩ := (matches_oneOf _).mp h
  have hunit := hunits s hs
  rw [Bool.and_eq_true, Bool.and_eq_true, Bool.not_eq_true', List.isEmpty_eq_false_iff] at hunit
  obtain ⟨⟨hlower, hne⟩, hns⟩ := hunit
  refine ⟨List.all_eq_true.mp hlower, hne, ?_⟩
  rw [String.ofList_toList]
  exact Option.isSome_iff_exists.mp hns

theorem accepts_intervalExpr (h : Matches (Accepted F) (rules selectedTable .intervalExpr) w) :
    Text (F := F) (Reads .primary) w := by
  simp only [buildGbnfGrammar, Matches, matchesSeq_cons, matchesSeq_single, Accepted] at h
  obtain ⟨_, _, rfl, rfl, ds, _, rfl, ⟨hds, i, hi⟩, sp, _, rfl, hsp, unit, _, rfl,
    ⟨hunit, hne, ns, hns⟩, rfl⟩ := h
  have hchars := interval_chars ds sp unit hds hsp hunit
  have hplain : ∀ c ∈ ds ++ sp ++ unit, c ≠ '\'' ∧ c.toNat ≠ 0 := by
    intro c hc
    obtain ⟨hlow, _, hquote⟩ := hchars c hc
    refine ⟨?_, by omega⟩
    rintro rfl
    exact hquote rfl
  have hascii : ∀ c ∈ ds ++ sp ++ unit, c.toNat < 128 := fun c hc => (hchars c hc).2.1
  have hbody : String.ofList ((utf8 (ds ++ sp ++ unit)).map byteChar) =
      String.ofList (ds ++ sp ++ unit) := by
    rw [utf8_ascii _ hascii, map_byteChar_ascii _ hascii]
  have hword := (lexes_keyword (F := F) "interval".toList .interval rfl rfl).before_space
  have hlex := hword.before (lexes_string (F := F) (ds ++ sp ++ unit) hplain)
  rw [hbody] at hlex
  refine ⟨_, .interval (i * ns), ?_,
    Reads.interval (parseInterval_text ds sp unit i ns hds hsp hunit hne hi hns)⟩
  simpa using hlex

/-! ### Expressions -/

theorem accepts_binop (h : Matches (Accepted F) (rules selectedTable .binop) w) :
    ∃ t op, comparisonOp t = some op ∧ Follows (F := F) Anything w [t] := by
  obtain ⟨s, hs, rfl⟩ := (matches_oneOf _).mp h
  simp only [List.mem_cons, List.not_mem_nil, or_false] at hs
  obtain rfl | rfl | rfl | rfl | rfl | rfl := hs
  · exact ⟨.eq, .eq, rfl, follows_operator '=' [] _ (by decide) fun _ _ => rfl⟩
  · exact ⟨.notEq, .notEq, rfl, follows_operator '!' ['='] _ (by decide) fun _ _ => rfl⟩
  · exact ⟨.lt, .lt, rfl, follows_operator '<' [] _ (by decide) fun _ _ => rfl⟩
  · exact ⟨.ltEq, .ltEq, rfl, follows_operator '<' ['='] _ (by decide) fun _ _ => rfl⟩
  · exact ⟨.gt, .gt, rfl, follows_operator '>' [] _ (by decide) fun _ _ => rfl⟩
  · exact ⟨.gtEq, .gtEq, rfl, follows_operator '>' ['='] _ (by decide) fun _ _ => rfl⟩

theorem text_call (name args : List Char) (hname : isName name = true)
    (pairs : List (List (Token F) × Expr F)) (hpairs : ∀ p ∈ pairs, Reads .or p.1 p.2)
    (hargs : Lexes Delimits args (joined .comma (pairs.map Prod.fst))) :
    Text (F := F) (Reads .primary) (name ++ (['('] ++ (args ++ [')']))) := by
  have hlex := (lexes_name (F := F) name hname).followed
    (follows_lParen.before (hargs.followed follows_rParen))
  refine ⟨_, _, hlex.mono fun _ _ => trivial, Reads.call (String.ofList name) pairs ?_⟩
  exact fun p hp => Reads.lift .argument (hpairs p hp)

theorem accepts_funcCall (h : Matches (Accepted F) (rules selectedTable .funcCall) w) :
    Text (F := F) (Reads .primary) w := by
  simp only [buildGbnfGrammar, ↓matches_opt, Matches, matchesSeq_cons, matchesSeq_single,
    Accepted] at h
  obtain ⟨name, _, rfl, hname, _, _, rfl, rfl, args, _, rfl, hargs, rfl⟩ := h
  cases hargs with
  | inl hnil =>
    subst hnil
    exact text_call name [] hname [] (by simp) (Lexes.nil _)
  | inr hlist =>
    obtain ⟨pairs, _, hpairs, hlex⟩ := hlist
    exact text_call name args hname pairs hpairs hlex

theorem accepts_primaryExpr (h : Matches (Accepted F) (rules selectedTable .primaryExpr) w) :
    Text (F := F) (Reads .primary) w := by
  simp only [buildGbnfGrammar, Matches, MatchesAlt, matchesSeq_cons, matchesSeq_single, Accepted,
    or_false] at h
  obtain hname | hlit | hcall | rfl | hinterval | hparen := h
  · exact ⟨_, _, lexes_name w hname, Reads.column _⟩
  · exact hlit
  · exact hcall
  · exact text_call "now".toList [] (by decide) [] (by simp) (Lexes.nil _)
  · exact hinterval
  · obtain ⟨_, _, rfl, rfl, v, _, rfl, ⟨ts, e, hlex, hread⟩, rfl⟩ := hparen
    have hparens := follows_lParen.lexes.before (hlex.followed follows_rParen)
    exact ⟨_, _, hparens.mono fun _ _ => trivial, Reads.paren hread⟩

theorem text_chain (l : Level) (x : Rule) {sep : Form Rule}
    (hsep : ∀ u, Matches (Accepted F) sep u →
      ∃ t f, chainOp l t = some f ∧ Follows (F := F) Anything u [t])
    (hx : ∀ u, Accepted F x u → Text (F := F) (Reads l.next) u)
    (h : Matches (Accepted F) (.seq [.rule x, .many (.seq [sep, .rule x])]) w) :
    Text (F := F) (Reads l) w := by
  simp only [Matches, matchesSeq_cons, matchesSeq_single] at h
  obtain ⟨u, _, rfl, hu, us, rfl, hus⟩ := h
  refine Text.chain l ((hx u hu).lift l) us fun v hv => ?_
  obtain ⟨op, v', rfl, hop, hv'⟩ := hus v hv
  exact ⟨op, v', rfl, hsep op hop, hx v' hv'⟩

theorem accepts_multExpr (h : Matches (Accepted F) (rules selectedTable .multExpr) w) :
    Text (F := F) (Reads .multiplication) w := by
  refine text_chain .multiplication .primaryExpr ?_ (fun u hu => Text.lift .unary hu) h
  intro u hu
  obtain ⟨s, hs, rfl⟩ := (matches_oneOf _).mp hu
  simp only [List.mem_cons, List.not_mem_nil, or_false] at hs
  obtain rfl | rfl := hs
  · exact ⟨.star, _, rfl, follows_operator '*' [] _ (by decide) fun _ _ => rfl⟩
  · exact ⟨.slash, _, rfl, follows_operator '/' [] _ (by decide) fun _ _ => rfl⟩

theorem accepts_addExpr (h : Matches (Accepted F) (rules selectedTable .addExpr) w) :
    Text (F := F) (Reads .addition) w := by
  refine text_chain .addition .multExpr ?_ (fun u hu => hu) h
  intro u hu
  obtain ⟨s, hs, rfl⟩ := (matches_oneOf _).mp hu
  simp only [List.mem_cons, List.not_mem_nil, or_false] at hs
  obtain rfl | rfl := hs
  · exact ⟨.plus, _, rfl, follows_operator '+' [] _ (by decide) fun _ _ => rfl⟩
  · exact ⟨.minus, _, rfl, follows_operator '-' [] _ (by decide) fun _ _ => rfl⟩

theorem accepts_cmpExpr (h : Matches (Accepted F) (rules selectedTable .cmpExpr) w) :
    Text (F := F) (Reads .comparison) w := by
  simp only [buildGbnfGrammar, ↓matches_opt, Matches, matchesSeq_cons, matchesSeq_single,
    Accepted] at h
  obtain ⟨u, v, rfl, hu, hv⟩ := h
  obtain rfl | ⟨op, v, rfl, ⟨t, binop, hop, hfollows⟩, us, b, hlexv, hreadv⟩ := hv
  · rw [List.append_nil]
    exact hu.lift .comparison
  · obtain ⟨ts, a, hlex, hread⟩ := hu
    exact ⟨_, _, hlex.followed (hfollows.before hlexv), Reads.compare hop hread hreadv⟩

theorem accepts_andExpr (h : Matches (Accepted F) (rules selectedTable .andExpr) w) :
    Text (F := F) (Reads .and) w := by
  refine text_chain .and .cmpExpr ?_ (fun u hu => Text.lift .not hu) h
  intro u hu
  rw [(matches_text _).mp hu]
  exact ⟨.and, _, rfl, follows_keyword "AND".toList _ rfl rfl⟩

theorem accepts_expr (h : Matches (Accepted F) (rules selectedTable .expr) w) :
    Text (F := F) (Reads .or) w := by
  refine text_chain .or .andExpr ?_ (fun u hu => hu) h
  intro u hu
  rw [(matches_text _).mp hu]
  exact ⟨.or, _, rfl, follows_keyword "OR".toList _ rfl rfl⟩

/-! ### Lists -/

theorem texts_list {α : Type} {R : List (Token F) → α → Prop} (x : Rule)
    (hx : ∀ u, Accepted F x u → Text R u)
    (h : Matches (Accepted F) (.seq [.rule x, .many (.seq [.rule .commaWs, .rule x])]) w) :
    Texts R w := by
  simp only [Matches, matchesSeq_cons, matchesSeq_single, Accepted] at h
  obtain ⟨u, _, rfl, hu, us, rfl, hus⟩ := h
  refine Texts.of_items (hx u hu) us fun v hv => ?_
  obtain ⟨_, v', rfl, rfl, hv'⟩ := hus v hv
  exact ⟨v', rfl, hx v' hv'⟩

theorem accepts_asAlias (h : Matches (Accepted F) (rules selectedTable .asAlias) w) :
    ∃ a, Follows (F := F) Delimits w (aliasTokens (some a)) := by
  simp only [buildGbnfGrammar, Matches, matchesSeq_cons, matchesSeq_single, Accepted] at h
  obtain ⟨_, v, rfl, rfl, hv⟩ := h
  have hkw := follows_keyword "AS".toList (.asKw : Token F) rfl rfl
  exact ⟨_, hkw.before (lexes_name v hv)⟩

theorem accepts_projection (h : Matches (Accepted F) (rules selectedTable .projection) w) :
    Text (F := F) ReadsProjection w := by
  simp only [buildGbnfGrammar, ↓matches_opt, Matches, matchesSeq_cons, matchesSeq_single,
    Accepted] at h
  obtain ⟨u, v, rfl, ⟨ts, e, hlex, hread⟩, hv⟩ := h
  obtain rfl | ⟨a, ha⟩ := hv
  · exact ⟨_, _, hlex.followed Follows.nil, ReadsProjection.expr none hread⟩
  · exact ⟨_, _, hlex.followed ha, ReadsProjection.expr (some a) hread⟩

theorem accepts_projections (h : Matches (Accepted F) (rules selectedTable .projections) w) :
    Texts (F := F) ReadsProjection w := by
  have halt := (matches_alt _).mp h
  simp only [MatchesAlt, or_false] at halt
  cases halt with
  | inl hstar =>
    have hw : w = ['*'] := (matches_rule _).mp hstar
    have hlex := lexes_punctuation '*' (.star : Token F) (by decide) rfl
    rw [hw]
    refine ⟨[([.star], .star)], by simp, ?_, hlex.mono fun _ _ => trivial⟩
    rintro p hp
    rw [List.mem_singleton.mp hp]
    exact ReadsProjection.star
  | inr hlist => exact texts_list .projection (fun u hu => hu) hlist

theorem accepts_orderDir (h : Matches (Accepted F) (rules selectedTable .orderDir) w) :
    ∃ t, (t = .asc ∨ t = .desc) ∧ Follows (F := F) Delimits w [t] := by
  obtain ⟨s, hs, rfl⟩ := (matches_oneOf _).mp h
  simp only [List.mem_cons, List.not_mem_nil, or_false] at hs
  obtain rfl | rfl := hs
  · exact ⟨.asc, Or.inl rfl, follows_word "ASC".toList _ rfl rfl⟩
  · exact ⟨.desc, Or.inr rfl, follows_word "DESC".toList _ rfl rfl⟩

theorem accepts_orderItem (h : Matches (Accepted F) (rules selectedTable .orderItem) w) :
    Text (F := F) ReadsOrderItem w := by
  simp only [buildGbnfGrammar, ↓matches_opt, Matches, matchesSeq_cons, matchesSeq_single,
    Accepted] at h
  obtain ⟨u, v, rfl, ⟨ts, e, hlex, hread⟩, hv⟩ := h
  obtain rfl | ⟨t, ht, hfollows⟩ := hv
  · rw [List.append_nil]
    exact ⟨_, _, hlex, ReadsOrderItem.plain hread⟩
  · cases ht with
    | inl hasc =>
      subst hasc
      exact ⟨_, _, hlex.followed hfollows, ReadsOrderItem.asc hread⟩
    | inr hdesc =>
      subst hdesc
      exact ⟨_, _, hlex.followed hfollows, ReadsOrderItem.desc hread⟩

/-! ### Clauses -/

theorem matches_clause {s : String} {x : Rule}
    (h : Matches (Accepted F) (.seq [.text s, .rule x]) w) :
    ∃ v, w = s.toList ++ v ∧ Accepted F x v := by
  simp only [Matches, matchesSeq_cons, matchesSeq_single] at h
  obtain ⟨_, v, rfl, rfl, hv⟩ := h
  exact ⟨v, rfl, hv⟩

theorem accepts_limitClause (h : Matches (Accepted F) (rules selectedTable .limitClause) w) :
    CountText (F := F) .limit w := by
  obtain ⟨v, rfl, hds, i, hi⟩ := matches_clause h
  exact CountText.of_integer (follows_keyword "LIMIT".toList _ rfl rfl) hds hi

theorem accepts_offsetClause (h : Matches (Accepted F) (rules selectedTable .offsetClause) w) :
    CountText (F := F) .offset w := by
  obtain ⟨v, rfl, hds, i, hi⟩ := matches_clause h
  exact CountText.of_integer (follows_keyword "OFFSET".toList _ rfl rfl) hds hi

theorem accepts_havingClause (h : Matches (Accepted F) (rules selectedTable .havingClause) w) :
    ClauseText (F := F) .having (Reads .or) w := by
  obtain ⟨v, rfl, hv⟩ := matches_clause h
  exact Text.clause (follows_keyword "HAVING".toList _ rfl rfl) hv

theorem accepts_whereClause (h : Matches (Accepted F) (rules selectedTable .whereClause) w) :
    ClauseText (F := F) .whereKw (Reads .or) w := by
  obtain ⟨v, rfl, hv⟩ := matches_clause h
  exact Text.clause (follows_keyword "WHERE".toList _ rfl rfl) hv

theorem accepts_groupClause (h : Matches (Accepted F) (rules selectedTable .groupClause) w) :
    ListClauseText (F := F) .group (Reads .or) w := by
  obtain ⟨v, rfl, hv⟩ := matches_clause h
  exact Texts.clause (follows_by "GROUP".toList _ rfl rfl) hv

/-! ### Statements -/

theorem accepts_clauses (h : MatchesSeq (Accepted F) [opt (rule .whereClause),
      opt (rule .groupClause), opt (rule .havingClause),
      opt (seq [text " ORDER BY ", rule .orderList]), opt (rule .limitClause),
      opt (rule .offsetClause), text ";"] w)
    (projections : List (List (Token F) × Projection F)) (hne : projections ≠ [])
    (hprojections : ∀ p ∈ projections, ReadsProjection p.1 p.2) (table : String) :
    ∃ (s : Clauses F) (ts : List (Token F)), Follows Anything w ts ∧
      s.tokens ++ [.semicolon] = .select :: (joined .comma (projections.map Prod.fst) ++
        .fromKw :: .ident table :: ts) := by
  simp only [matchesSeq_cons, matchesSeq_single, matches_text] at h
  obtain ⟨wh, _, rfl, hwhere, gr, _, rfl, hgroup, hv, _, rfl, hhaving, ob, _, rfl, horder, li, _,
    rfl, hlimit, os, _, rfl, hoffset, rfl⟩ := h
  obtain ⟨filter, hfilter, hwh⟩ : ClauseText (F := F) .whereKw (Reads .or) wh :=
    hwhere.optional (ClauseText.nil _ _) (matches_rule _).mp
  obtain ⟨groupBy, hgroupBy, hgr⟩ : ListClauseText (F := F) .group (Reads .or) gr :=
    hgroup.optional (ListClauseText.nil _ _) (matches_rule _).mp
  obtain ⟨having, hhaving', hhv⟩ : ClauseText (F := F) .having (Reads .or) hv :=
    hhaving.optional (ClauseText.nil _ _) (matches_rule _).mp
  obtain ⟨orderBy, horderBy, hob⟩ : ListClauseText (F := F) .order ReadsOrderItem ob := by
    refine horder.optional (ListClauseText.nil _ _) fun hm => ?_
    obtain ⟨v, rfl, hlist⟩ := matches_clause hm
    exact Texts.clause (follows_by "ORDER".toList _ rfl rfl) hlist
  obtain ⟨limit, hli⟩ : CountText (F := F) .limit li :=
    hlimit.optional (CountText.nil _) (matches_rule _).mp
  obtain ⟨offset, hos⟩ : CountText (F := F) .offset os :=
    hoffset.optional (CountText.nil _) (matches_rule _).mp
  have hend : Follows Anything [';'] [(.semicolon : Token F)] :=
    follows_punctuation ';' _ (by decide) rfl (by decide)
  refine ⟨⟨projections, ⟨table, none⟩, [], filter, groupBy, having, orderBy, limit,
    offset, hne, hprojections, by simp, hfilter, hgroupBy, hhaving', horderBy⟩, _,
    hwh.followed (hgr.followed (hhv.followed (hob.followed (hli.followed (hos.followed hend))))),
    ?_⟩
  simp [Clauses.tokens, tableTokens, aliasTokens]

theorem accepts_selectStmt (h : Matches (Accepted F) (rules selectedTable .selectStmt) w) :
    ∃ s : Clauses F, Lexes Anything w (s.tokens ++ [.semicolon]) := by
  obtain ⟨_, _, rfl, hselect, hrest⟩ := (matchesSeq_cons _ _ _).mp ((matches_seq _).mp h)
  obtain ⟨ps, _, rfl, hps, hrest⟩ := (matchesSeq_cons _ _ _).mp hrest
  obtain ⟨_, _, rfl, hfrom, hrest⟩ := (matchesSeq_cons _ _ _).mp hrest
  obtain ⟨table, v, rfl, htable, hclauses⟩ := (matchesSeq_cons _ _ _).mp hrest
  obtain ⟨projections, hne, hprojections, hlex⟩ := (matches_rule _).mp hps
  obtain ⟨s, ts, hts, htokens⟩ := accepts_clauses hclauses projections hne hprojections
    (String.ofList table)
  refine ⟨s, ?_⟩
  rw [htokens, (matches_text _).mp hselect, (matches_text _).mp hfrom]
  have hname := lexes_name (F := F) table ((matches_rule _).mp htable)
  have hkw := follows_keyword "FROM".toList (.fromKw : Token F) rfl rfl
  exact (lexes_keyword "SELECT".toList (.select : Token F) rfl rfl).before_space.before
    (hlex.followed (hkw.before (hname.followed hts)))

/-- Each rule derives only texts that the engine reads as the rule's part of a statement. -/
theorem accepted_rule (x : Rule) (w : List Char) (hok : LexemeOk x w)
    (h : Matches (Accepted F) (rules selectedTable x) w) : Accepted F x w := by
  cases x with
  | root => exact (matches_rule Rule.selectStmt).mp h
  | ws => exact accepts_ws selectedTable h
  | commaWs => exact (matches_text ", ").mp h
  | tableName => exact accepts_tableName selectedTable h
  | columnName => exact accepts_columnName selectedTable h
  | funcName => exact accepts_funcName selectedTable h
  | integer => exact accepts_integer selectedTable hok h
  | floatLit => exact accepts_floatLit selectedTable h
  | stringLit => exact accepts_stringLit selectedTable hok h
  | literal => exact accepts_literal selectedTable h
  | intervalUnit => exact accepts_intervalUnit selectedTable h
  | intervalExpr => exact accepts_intervalExpr selectedTable h
  | binop => exact accepts_binop selectedTable h
  | funcCall => exact accepts_funcCall selectedTable h
  | primaryExpr => exact accepts_primaryExpr selectedTable h
  | multExpr => exact accepts_multExpr selectedTable h
  | addExpr => exact accepts_addExpr selectedTable h
  | cmpExpr => exact accepts_cmpExpr selectedTable h
  | andExpr => exact accepts_andExpr selectedTable h
  | expr => exact accepts_expr selectedTable h
  | exprList => exact texts_list .expr (fun u hu => hu) h
  | asAlias => exact accepts_asAlias selectedTable h
  | projection => exact accepts_projection selectedTable h
  | projStar => exact (matches_text "*").mp h
  | projections => exact accepts_projections selectedTable h
  | orderDir => exact accepts_orderDir selectedTable h
  | orderItem => exact accepts_orderItem selectedTable h
  | orderList => exact texts_list .orderItem (fun u hu => hu) h
  | limitClause => exact accepts_limitClause selectedTable h
  | offsetClause => exact accepts_offsetClause selectedTable h
  | groupClause => exact accepts_groupClause selectedTable h
  | havingClause => exact accepts_havingClause selectedTable h
  | whereClause => exact accepts_whereClause selectedTable h
  | selectStmt => exact accepts_selectStmt selectedTable h

end Accepted

/-- The lexer and the parser accept every sentence of the grammar whose integers fit and whose
strings have no NUL. -/
theorem sentence_accepted (F : Type) [FloatText F] [Alphabetic] [DecidableEq F]
    (selectedTable : Option String) (w : List Char)
    (h : Derives (buildGbnfGrammar (some defaultTables) selectedTable) LexemeOk (.rule .root) w) :
    ∃ (tokens : List (Token F)) (stmt : Statement F), tokenise (utf8 w) = .ok tokens ∧
      ∀ n, tokens.length < n → parseStatement n tokens = .ok stmt := by
  obtain ⟨s, hlex⟩ := h.induction (accepted_rule (F := F) selectedTable)
  refine ⟨s.tokens ++ semicolonTokens true ++ [.eof], .select s.statement, ?_, fun n hn => ?_⟩
  · have htokens := hlex (utf8 w).length [] trivial
    have hnil : (tokeniseFrom (utf8 w).length [] : Except LexError (List (Token F))) = .ok [.eof] :=
      tokeniseFrom_end _ rfl
    rw [List.append_nil] at htokens
    rw [tokenise, htokens, hnil]
    rfl
  · refine parseStatement_clauses s true ?_
    rwa [List.length_append] at hn

/-! A sentence with a filter and a limit. -/

section Sample
variable {G : Rule → Form Rule} {ok : Rule → List Char → Prop} {w : List Char}

theorem derives_single {x y : Rule} {a : Form Rule} (hG : G x = .seq [.rule y, a]) (hok : ok x w)
    (hnil : Derives G ok a []) (h : Derives G ok (.rule y) w) : Derives G ok (.rule x) w := by
  refine Derives.rule hok ?_
  have hseq := Derives.cons h (Derives.cons hnil Derives.nil)
  rwa [List.append_nil, List.append_nil, ← hG] at hseq

theorem derives_opt (a : Form Rule) : Derives G ok (.opt a) [] :=
  Derives.alt List.mem_cons_self Derives.nil

theorem derives_some {a : Form Rule} (h : Derives G ok a w) : Derives G ok (.opt a) w :=
  Derives.alt (List.mem_cons_of_mem _ List.mem_cons_self) h

end Sample

theorem derives_column (c : String) (hc : c ∈ unionColumns defaultTables) :
    Derives (rules none) LexemeOk (.rule .columnName) c.toList :=
  Derives.rule trivial (Derives.alt (List.mem_map_of_mem hc) (Derives.text c))

theorem derives_operand {w : List Char} (h : Derives (rules none) LexemeOk (.rule .primaryExpr) w) :
    Derives (rules none) LexemeOk (.rule .addExpr) w :=
  derives_single rfl trivial Derives.stop (derives_single rfl trivial Derives.stop h)

theorem derives_comparison {w : List Char} (h : Derives (rules none) LexemeOk (.rule .cmpExpr) w) :
    Derives (rules none) LexemeOk (.rule .expr) w :=
  derives_single rfl trivial Derives.stop (derives_single rfl trivial Derives.stop h)

def sampleSentence : List Char :=
  "SELECT body FROM logs WHERE severity_number >= 17 LIMIT 10;".toList

theorem derives_sample : Derives (buildGbnfGrammar (some defaultTables) none) LexemeOk
    (.rule .root) sampleSentence := by
  have hinteger : ∀ a b : Char, a.isDigit = true → b.isDigit = true → LexemeOk .integer [a, b] →
      Derives (rules none) LexemeOk (.rule .integer) [a, b] := fun a b ha hb hok =>
    Derives.rule hok (Derives.cons (Derives.chars ha)
      (Derives.cons (Derives.again (Derives.chars hb) Derives.stop) Derives.nil))
  have hten := hinteger '1' '0' rfl rfl fun n hn => by
    rw [show parseNat ['1', '0'] = some 10 by decide] at hn
    cases hn
    decide
  have hseventeen := hinteger '1' '7' rfl rfl fun n hn => by
    rw [show parseNat ['1', '7'] = some 17 by decide] at hn
    cases hn
    decide
  have hcolumn : ∀ c ∈ unionColumns defaultTables,
      Derives (rules none) LexemeOk (.rule .addExpr) c.toList := fun c hc =>
    derives_operand (Derives.rule trivial (Derives.alt List.mem_cons_self (derives_column c hc)))
  have hliteral := derives_operand (Derives.rule trivial (Derives.alt
    (List.mem_cons_of_mem _ List.mem_cons_self)
    (Derives.rule trivial (Derives.alt List.mem_cons_self hseventeen))))
  have hbinop : Derives (rules none) LexemeOk (.rule .binop) " >= ".toList :=
    Derives.rule trivial (Derives.alt (List.mem_map_of_mem (by decide)) (Derives.text " >= "))
  have hfilter := derives_comparison (Derives.rule trivial
    (Derives.cons (hcolumn "severity_number" (by decide))
      (Derives.cons (derives_some (Derives.cons hbinop (Derives.cons hliteral Derives.nil)))
        Derives.nil)))
  have hbody := derives_comparison (derives_single rfl trivial (derives_opt _)
    (hcolumn "body" (by decide)))
  have hprojections : Derives (rules none) LexemeOk (.rule .projections) "body".toList :=
    Derives.rule trivial (Derives.alt (List.mem_cons_of_mem _ List.mem_cons_self)
      (Derives.cons (derives_single rfl trivial (derives_opt _) hbody)
        (Derives.cons Derives.stop Derives.nil)))
  have htable : Derives (rules none) LexemeOk (.rule .tableName) "logs".toList :=
    Derives.rule trivial (Derives.alt (List.mem_map_of_mem (by decide)) (Derives.text "logs"))
  have hwhere : Derives (rules none) LexemeOk (.rule .whereClause)
      " WHERE severity_number >= 17".toList :=
    Derives.rule trivial (Derives.cons (Derives.text " WHERE ") (Derives.cons hfilter Derives.nil))
  have hlimit : Derives (rules none) LexemeOk (.rule .limitClause) " LIMIT 10".toList :=
    Derives.rule trivial (Derives.cons (Derives.text " LIMIT ") (Derives.cons hten Derives.nil))
  have htext : sampleSentence = "SELECT ".toList ++ ("body".toList ++ (" FROM ".toList ++
      ("logs".toList ++ (" WHERE severity_number >= 17".toList ++ ([] ++ ([] ++ ([] ++
        (" LIMIT 10".toList ++ ([] ++ (";".toList ++ [])))))))))) := by
    decide +kernel
  rw [htext]
  exact Derives.rule trivial (Derives.rule trivial
    (Derives.cons (Derives.text "SELECT ") (Derives.cons hprojections
      (Derives.cons (Derives.text " FROM ") (Derives.cons htable
        (Derives.cons (derives_some hwhere) (Derives.cons (derives_opt _)
          (Derives.cons (derives_opt _) (Derives.cons (derives_opt _)
            (Derives.cons (derives_some hlimit) (Derives.cons (derives_opt _)
              (Derives.cons (Derives.text ";") Derives.nil))))))))))))

theorem sentence_accepted_sample :
    Derives (buildGbnfGrammar (some defaultTables) none) LexemeOk (.rule .root) sampleSentence ∧
    ∃ (tokens : List (Token String)) (stmt : Statement String),
      @tokenise String floatTexts (utf8 sampleSentence) = .ok tokens ∧
        ∀ n, tokens.length < n → @parseStatement String _ asciiLetters n tokens = .ok stmt :=
  ⟨derives_sample, @sentence_accepted String floatTexts asciiLetters _ none _ derives_sample⟩

end InfraLens.Copilot
