import InfraLens.StatementReading

/-! Printing of statements as tokens, with only the parentheses the precedence chain needs, and
that the parser gives back every printed statement. -/
namespace InfraLens.Query
open LibText
open LibParse (joined)

/-- The level of the left operand: comparisons do not associate, the others do to the left. -/
def BinOp.leftLevel (op : BinOp) : Level :=
  if op.level = .comparison then .addition else op.level

def intervalText (ns : Int64) : String :=
  String.ofList (decimal (ns.toInt / 1000).toNat ++ [' '] ++ ['u', 's'])

section Printing
variable {F : Type}

/-- The tightest level an expression can be read at without parentheses. -/
def Expr.level : Expr F → Level
  | .binOp op _ _ => op.level
  | .unaryOp op _ => op.level
  | .isNull _ | .isNotNull _ | .between _ _ _ | .inList _ _ | .like _ _ _ => .comparison
  | .star => .argument
  | _ => .primary

/-- Tokens of an expression, in parentheses where its level is looser than the one asked for. -/
def wrap (l : Level) (e : Expr F) (ts : List (Token F)) : List (Token F) :=
  if l.rank ≤ e.level.rank then ts else .lParen :: (ts ++ [.rParen])

def likeTokens : Bool → List (Token F)
  | true => [.not, .like]
  | false => [.like]

mutual

def exprTokens : Expr F → List (Token F)
  | .column none name => [.ident name]
  | .column (some table) name => [.ident table, .dot, .ident name]
  | .literal lit => (literalToken lit).toList
  | .star => [.star]
  | .binOp op l r =>
    wrap op.leftLevel l (exprTokens l) ++ op.token :: wrap op.level.next r (exprTokens r)
  | .unaryOp op e => op.token :: wrap op.level e (exprTokens e)
  | .isNull e => wrap .addition e (exprTokens e) ++ [.is, .null]
  | .isNotNull e => wrap .addition e (exprTokens e) ++ [.is, .not, .null]
  | .between e low high => wrap .addition e (exprTokens e) ++
      .between :: (wrap .addition low (exprTokens low) ++
        .and :: wrap .addition high (exprTokens high))
  | .inList e list => wrap .addition e (exprTokens e) ++
      .inKw :: .lParen :: (joined .comma (exprsTokens list) ++ [.rParen])
  | .like e pattern negated =>
    wrap .addition e (exprTokens e) ++ (likeTokens negated ++ [.strLit pattern])
  | .function name args =>
    .ident name :: .lParen :: (joined .comma (exprsTokens args) ++ [.rParen])
  | .interval ns => [.interval, .strLit (intervalText ns)]
  -- the parser builds none of these
  | .timeBucket _ _ | .rate _ _ | .delta _ _ | .histogramQuantile _ _ _ | .now => []

def exprsTokens : List (Expr F) → List (List (Token F))
  | [] => []
  | e :: es => exprTokens e :: exprsTokens es

end

theorem exprsTokens_eq (es : List (Expr F)) : exprsTokens es = es.map exprTokens := by
  induction es with
  | nil => rfl
  | cons e es ih => rw [exprsTokens, ih, List.map_cons]

mutual

/-- The expressions the parser builds, with `*` only as an argument of a function, lists of `IN`
that are not empty, lower-case names of functions, and intervals of whole microseconds. -/
def Printable : Expr F → Prop
  | .column _ _ => True
  | .literal lit => ∀ n, lit ≠ .intervalNs n
  | .star => False
  | .binOp _ l r => Printable l ∧ Printable r
  | .unaryOp _ e => Printable e
  | .isNull e => Printable e
  | .isNotNull e => Printable e
  | .between e low high => Printable e ∧ Printable low ∧ Printable high
  | .inList e list => Printable e ∧ list ≠ [] ∧ PrintableList list
  | .like e _ _ => Printable e
  | .function name args => name.toList.map Char.toLower = name.toList ∧ PrintableArgs args
  | .interval ns => 0 ≤ ns.toInt ∧ 1000 ∣ ns.toInt
  | .timeBucket _ _ | .rate _ _ | .delta _ _ | .histogramQuantile _ _ _ | .now => False

def PrintableList : List (Expr F) → Prop
  | [] => True
  | e :: es => Printable e ∧ PrintableList es

def PrintableArgs : List (Expr F) → Prop
  | [] => True
  | e :: es => (e = .star ∨ Printable e) ∧ PrintableArgs es

end

theorem printableList_iff (es : List (Expr F)) : PrintableList es ↔ ∀ e ∈ es, Printable e := by
  induction es with
  | nil => simp [PrintableList]
  | cons e es ih => simp [PrintableList, ih]

theorem printableArgs_iff (es : List (Expr F)) :
    PrintableArgs es ↔ ∀ e ∈ es, e = .star ∨ Printable e := by
  induction es with
  | nil => simp [PrintableArgs]
  | cons e es ih => simp [PrintableArgs, ih]

/-! ### What is printed is a reading -/

theorem BinOp.chainOp_token (op : BinOp) (h : op.level ≠ .comparison) :
    chainOp op.level op.token = some (Expr.binOp (F := F) op) := by
  cases op <;> first | rfl | exact absurd rfl h

theorem BinOp.comparisonOp_token (op : BinOp) (h : op.level = .comparison) :
    comparisonOp (op.token : Token F) = some op := by
  cases op <;> first | rfl | cases h

theorem UnaryOp.prefixOp_token (op : UnaryOp) :
    prefixOp op.level op.token = some (Expr.unaryOp (F := F) op) := by
  cases op <;> rfl

theorem Level.rank_le (l : Level) : l.rank ≤ Level.primary.rank := by
  cases l <;> decide

theorem Level.next_iterate (l l' : Level) (h : l.rank ≤ l'.rank) :
    Level.next^[l'.rank - l.rank] l = l' := by
  cases l <;> cases l' <;> first | rfl | exact absurd h (by decide)

theorem BinOp.or_le_level (op : BinOp) : Level.or.rank ≤ op.level.rank := by
  cases op <;> decide

theorem Printable.operand {e : Expr F} (h : Printable e) : Level.or.rank ≤ e.level.rank := by
  cases e with
  | star => exact absurd h id
  | binOp op l r => exact op.or_le_level
  | unaryOp op e => cases op <;> exact Nat.le_of_ble_eq_true rfl
  | _ => exact Nat.le_of_ble_eq_true rfl

theorem pairs_fst {α : Type} (f : α → List (Token F)) (as : List α) :
    (as.map fun a => (f a, a)).map Prod.fst = as.map f := by
  rw [List.map_map]
  rfl

theorem pairs_snd {α : Type} (f : α → List (Token F)) (as : List α) :
    (as.map fun a => (f a, a)).map Prod.snd = as := by
  rw [List.map_map]
  exact List.map_id as

theorem forall_pairs {α : Type} {f : α → List (Token F)} {R : List (Token F) → α → Prop}
    {as : List α} (h : ∀ a ∈ as, R (f a) a) : ∀ p ∈ as.map (fun a => (f a, a)), R p.1 p.2 := by
  intro p hp
  obtain ⟨a, ha, rfl⟩ := List.mem_map.mp hp
  exact h a ha

theorem forall_pair {α : Type} {f : α → List (Token F)} {R : List (Token F) → α → Prop}
    {o : Option α} (h : ∀ a ∈ o, R (f a) a) : ∀ p ∈ o.map (fun a => (f a, a)), R p.1 p.2 := by
  intro p hp
  obtain ⟨a, ha, rfl⟩ := Option.mem_map.mp hp
  exact h a ha

section Reading
variable [Alphabetic]

theorem Reads.iterate (k : Nat) (l : Level) {ts : List (Token F)} {e : Expr F}
    (h : Reads (Level.next^[k] l) ts e) : Reads l ts e := by
  induction k generalizing l with
  | zero => exact h
  | succ k ih => exact Reads.lift l (ih l.next h)

theorem Reads.lower {l l' : Level} {ts : List (Token F)} {e : Expr F} (h : Reads l' ts e)
    (hle : l.rank ≤ l'.rank) : Reads l ts e := by
  rw [← Level.next_iterate l l' hle] at h
  exact h.iterate _ l

theorem Reads.wrapped {e : Expr F} {ts : List (Token F)} (h : Reads e.level ts e)
    (he : Printable e) (l : Level) : Reads l (wrap l e ts) e := by
  by_cases hl : l.rank ≤ e.level.rank
  · rw [wrap, if_pos hl]
    exact h.lower hl
  · rw [wrap, if_neg hl]
    exact (Reads.paren (h.lower he.operand)).lower l.rank_le

theorem parseInterval_intervalText (ns : Int64) (hpos : 0 ≤ ns.toInt) (hdvd : 1000 ∣ ns.toInt) :
    parseInterval (F := F) (intervalText ns) = .ok ns := by
  obtain ⟨k, hk⟩ := hdvd
  have hbound := ns.toInt_lt
  have hdiv : ns.toInt / 1000 = k := by omega
  have hnum : parseI64 (decimal (ns.toInt / 1000).toNat) = some (Int64.ofInt k) := by
    have hi64 : (Int64.ofInt k).toInt = k := Int64.toInt_ofInt_of_le (by omega) (by omega)
    have hparse := parseI64_decimalInt (Int64.ofInt k)
    rw [hi64, decimalInt, if_neg (by omega)] at hparse
    rw [hdiv]
    rwa [show k.toNat = k.natAbs by omega]
  have htext := parseInterval_text (F := F) (decimal (ns.toInt / 1000).toNat) [' '] ['u', 's']
    (Int64.ofInt k) 1000 (isDigit_decimal _) (by simp) (List.all_eq_true.mp rfl) (by simp) hnum rfl
  rw [intervalText, htext]
  have hmul : Int64.ofInt k * 1000 = Int64.ofInt (k * 1000) := (Int64.ofInt_mul k 1000).symm
  rw [hmul, Int.mul_comm, ← hk, Int64.ofInt_toInt]

theorem Printable.reads (e : Expr F) : Printable e → Reads e.level (exprTokens e) e := by
  induction e using Expr.tree with
  | column table name =>
    intro _
    cases table with
    | none => exact Reads.column name
    | some table => exact Reads.qualified table name
  | literal lit =>
    intro h
    cases lit with
    | int i | float f | str s | null => exact Reads.literal rfl
    | bool b => cases b <;> exact Reads.literal rfl
    | intervalNs i => exact absurd rfl (h i)
  | star => exact fun h => absurd h id
  | binOp op l r ihl ihr =>
    rintro ⟨hl, hr⟩
    have hleft := (ihl hl).wrapped hl op.leftLevel
    have hright := (ihr hr).wrapped hr op.level.next
    rw [Expr.level, exprTokens]
    by_cases hop : op.level = .comparison
    · rw [BinOp.leftLevel, if_pos hop] at hleft ⊢
      rw [hop] at hright ⊢
      exact Reads.compare (op.comparisonOp_token hop) hleft hright
    · rw [BinOp.leftLevel, if_neg hop] at hleft ⊢
      exact Reads.binary op.level (op.chainOp_token hop) hleft hright
  | unaryOp op e ih => exact fun h => Reads.unary op.level op.prefixOp_token ((ih h).wrapped h _)
  | isNull e ih => exact fun h => Reads.isNull ((ih h).wrapped h _)
  | isNotNull e ih => exact fun h => Reads.isNotNull ((ih h).wrapped h _)
  | between e low high ih ihlow ihhigh =>
    rintro ⟨h, hlow, hhigh⟩
    exact Reads.between ((ih h).wrapped h _) ((ihlow hlow).wrapped hlow _)
      ((ihhigh hhigh).wrapped hhigh _)
  | inList e list ih ihlist =>
    rintro ⟨h, hne, hlist⟩
    have hitems : ∀ a ∈ list, Reads .or (exprTokens a) a := by
      intro a ha
      have hprintable := (printableList_iff list).mp hlist a ha
      exact (ihlist a ha hprintable).lower hprintable.operand
    have hreads := Reads.inList _ (by simpa using hne) ((ih h).wrapped h _) (forall_pairs hitems)
    rwa [pairs_fst, pairs_snd, ← exprsTokens_eq] at hreads
  | like e pattern negated ih =>
    intro h
    cases negated with
    | true => exact Reads.notLike pattern ((ih h).wrapped h _)
    | false => exact Reads.like pattern ((ih h).wrapped h _)
  | function name args ih =>
    rintro ⟨hname, hargs⟩
    have hitems : ∀ a ∈ args, Reads .argument (exprTokens a) a := by
      intro a ha
      cases (printableArgs_iff args).mp hargs a ha with
      | inl hstar =>
        subst hstar
        exact Reads.star
      | inr hprintable =>
        exact (ih a ha hprintable).lower (Nat.le_trans (by decide) hprintable.operand)
    have hreads := Reads.call name _ (forall_pairs hitems)
    rwa [pairs_fst, pairs_snd, ← exprsTokens_eq, hname, String.ofList_toList] at hreads
  | timeBucket w e ih | rate e w ih | delta e w ih | histogramQuantile q e buckets ih | now =>
    exact fun h => absurd h id
  | interval ns =>
    rintro ⟨hpos, hdvd⟩
    exact Reads.interval (parseInterval_intervalText ns hpos hdvd)

end Reading

/-! ### No shorter text is a reading -/

theorem length_wrap_level {l : Level} {e : Expr F} {ts : List (Token F)} {m : Nat}
    (h : e.level = l) (hm : ts.length ≤ m) : (wrap l e ts).length ≤ m := by
  rwa [wrap, if_pos (Nat.le_of_eq (congrArg Level.rank h.symm))]

theorem length_wrap (l : Level) (e : Expr F) (ts : List (Token F)) :
    ts.length ≤ (wrap l e ts).length ∧ (wrap l e ts).length ≤ ts.length + 2 := by
  rw [wrap]
  split
  · omega
  · simp only [List.length_cons, List.length_append, List.length_nil]
    omega

theorem length_wrap_next (l : Level) (e : Expr F) (ts : List (Token F)) :
    (wrap l e ts).length ≤ (wrap l.next e ts).length := by
  by_cases h : l.rank ≤ e.level.rank
  · rw [wrap, if_pos h]
    exact (length_wrap l.next e ts).1
  · have hnext := l.rank_le_next
    rw [wrap, wrap, if_neg h, if_neg (by omega)]

theorem length_exprsTokens (pairs : List (List (Token F) × Expr F))
    (h : ∀ p ∈ pairs, (exprTokens p.2).length ≤ p.1.length) :
    (joined .comma (exprsTokens (pairs.map Prod.snd))).length ≤
      (joined .comma (pairs.map Prod.fst)).length := by
  rw [exprsTokens_eq, List.map_map]
  exact LibParse.length_joined_le .comma _ _ pairs h

/-- No token list that is read as an expression is shorter than the printed one: each pair of
parentheses of the printed expression is needed. -/
theorem Reads.length_exprTokens_le [Alphabetic] {l : Level} {ts : List (Token F)} {e : Expr F}
    (h : Reads l ts e) : (wrap l e (exprTokens e)).length ≤ ts.length := by
  induction h with
  | lift l h ih => exact Nat.le_trans (length_wrap_next l _ _) ih
  | star => exact Nat.le_refl 1
  | binary l hop hleft hright ihl ihr =>
    obtain ⟨op, rfl, rfl, hlevel, hne⟩ := chainOp_some _ _ _ hop
    refine length_wrap_level hlevel ?_
    rw [exprTokens, BinOp.leftLevel, hlevel, if_neg hne]
    simp only [List.length_append, List.length_cons]
    omega
  | unary l hop h ih =>
    obtain ⟨op, rfl, rfl, hlevel⟩ := prefixOp_some _ _ _ hop
    refine length_wrap_level hlevel ?_
    rw [exprTokens, hlevel]
    exact Nat.succ_le_succ ih
  | @compare ts us a b t op hop hleft hright ihl ihr =>
    have hlevel := (comparisonOp_some t op hop).2
    refine length_wrap_level hlevel ?_
    rw [exprTokens, BinOp.leftLevel,
      if_pos hlevel, hlevel]
    simp only [List.length_append, List.length_cons, Level.next]
    omega
  | isNull h ih | isNotNull h ih =>
    refine length_wrap_level rfl ?_
    rw [exprTokens]
    simp only [List.length_append, List.length_cons]
    omega
  | between h hlow hhigh ih ihlow ihhigh =>
    refine length_wrap_level rfl ?_
    rw [exprTokens]
    simp only [List.length_append, List.length_cons]
    omega
  | inList pairs hne h hlist ih ihlist =>
    have hitems := length_exprsTokens pairs fun p hp =>
      Nat.le_trans (length_wrap .or p.2 _).1 (ihlist p hp)
    refine length_wrap_level rfl ?_
    rw [exprTokens]
    simp only [List.length_append, List.length_cons]
    omega
  | like pattern h ih | notLike pattern h ih =>
    refine length_wrap_level rfl ?_
    rw [exprTokens]
    simp only [List.length_append, List.length_cons, List.length_nil, likeTokens]
    omega
  | literal h =>
    refine length_wrap_level rfl ?_
    rw [exprTokens, h]
    exact Nat.le_refl 1
  | interval h => exact Nat.le_refl 2
  | column name => exact Nat.le_refl 1
  | qualified table name => exact Nat.le_refl 3
  | call name pairs h ih =>
    have hargs := length_exprsTokens pairs fun p hp =>
      Nat.le_trans (length_wrap .argument p.2 _).1 (ih p hp)
    refine length_wrap_level rfl ?_
    rw [exprTokens]
    simp only [List.length_append, List.length_cons]
    omega
  | @paren ts e h ih =>
    have hor := (length_wrap .or e (exprTokens e)).1
    have hprimary := (length_wrap .primary e (exprTokens e)).2
    simp only [List.length_append, List.length_cons, List.length_nil]
    omega

/-! ### Statements -/

def projectionTokens : Projection F → List (Token F)
  | .star => [.star]
  | .expr e aliasName => exprTokens e ++ aliasTokens aliasName

/-- Ascending order is the default. -/
def orderItemTokens (item : OrderByItem F) : List (Token F) :=
  exprTokens item.expr ++ if item.asc then [] else [.desc]

def statementTokens (s : SelectStatement F) : List (Token F) :=
  .select :: (joined .comma (s.projections.map projectionTokens) ++
    .fromKw :: (tableTokens s.table ++
      (s.joins.flatMap (fun j => joinTokens (exprTokens j.condition, j)) ++
        (clauseTokens .whereKw (s.filter.map fun e => (exprTokens e, e)) ++
          (listTokens .group (s.groupBy.map fun e => (exprTokens e, e)) ++
            (clauseTokens .having (s.having.map fun e => (exprTokens e, e)) ++
              (listTokens .order (s.orderBy.map fun item => (orderItemTokens item, item)) ++
                (countTokens .limit s.limit ++ countTokens .offset s.offset))))))))

def PrintableProjection : Projection F → Prop
  | .star => True
  | .expr e _ => Printable e

structure PrintableStatement (s : SelectStatement F) : Prop where
  projections_ne : s.projections ≠ []
  projections : ∀ p ∈ s.projections, PrintableProjection p
  joins : ∀ j ∈ s.joins, Printable j.condition
  filter : ∀ e ∈ s.filter, Printable e
  groupBy : ∀ e ∈ s.groupBy, Printable e
  having : ∀ e ∈ s.having, Printable e
  orderBy : ∀ item ∈ s.orderBy, Printable item.expr

section Statements
variable [Alphabetic]

theorem Printable.reads_or {e : Expr F} (h : Printable e) : Reads .or (exprTokens e) e :=
  (Printable.reads e h).lower h.operand

theorem PrintableProjection.reads {p : Projection F} (h : PrintableProjection p) :
    ReadsProjection (projectionTokens p) p := by
  cases p with
  | star => exact ReadsProjection.star
  | expr e aliasName => exact ReadsProjection.expr aliasName (Printable.reads_or h)

theorem readsOrderItem (item : OrderByItem F) (h : Printable item.expr) :
    ReadsOrderItem (orderItemTokens item) item := by
  obtain ⟨e, asc⟩ := item
  cases asc with
  | true =>
    rw [orderItemTokens, if_pos rfl, List.append_nil]
    exact ReadsOrderItem.plain h.reads_or
  | false => exact ReadsOrderItem.desc h.reads_or

/-- The clauses of a printable statement, each with what is printed for it. -/
def printedClauses (s : SelectStatement F) (h : PrintableStatement s) : Clauses F where
  projections := s.projections.map fun p => (projectionTokens p, p)
  table := s.table
  joins := s.joins.map fun j => (exprTokens j.condition, j)
  filter := s.filter.map fun e => (exprTokens e, e)
  groupBy := s.groupBy.map fun e => (exprTokens e, e)
  having := s.having.map fun e => (exprTokens e, e)
  orderBy := s.orderBy.map fun item => (orderItemTokens item, item)
  limit := s.limit
  offset := s.offset
  projections_ne := fun hnil => h.projections_ne (List.map_eq_nil_iff.mp hnil)
  reads_projections := forall_pairs fun p hp => (h.projections p hp).reads
  reads_joins := forall_pairs (R := fun ts j => Reads .or ts j.condition)
    fun j hj => (h.joins j hj).reads_or
  reads_filter := forall_pair fun e he => (h.filter e he).reads_or
  reads_groupBy := forall_pairs fun e he => (h.groupBy e he).reads_or
  reads_having := forall_pair fun e he => (h.having e he).reads_or
  reads_orderBy := forall_pairs fun item hitem => readsOrderItem item (h.orderBy item hitem)

theorem printedClauses_tokens (s : SelectStatement F) (h : PrintableStatement s) :
    (printedClauses s h).tokens = statementTokens s := by
  rw [Clauses.tokens, statementTokens]
  simp only [printedClauses, pairs_fst, List.flatMap_map]

theorem printedClauses_statement (s : SelectStatement F) (h : PrintableStatement s) :
    (printedClauses s h).statement = s := by
  simp only [Clauses.statement, printedClauses, pairs_snd, Option.map_map, Function.comp_def,
    Option.map_id']

/-- The parser gives back the statement that was printed. -/
theorem parseStatement_statementTokens [DecidableEq F] (s : SelectStatement F)
    (h : PrintableStatement s) (n : Nat) (hn : (statementTokens s).length + 1 < n) :
    parseStatement n (statementTokens s ++ [.eof]) = .ok (.select s) := by
  have hparse := parseStatement_clauses (n := n) (printedClauses s h) false
  rw [printedClauses_tokens, printedClauses_statement, semicolonTokens, if_neg (by decide),
    List.append_nil] at hparse
  exact hparse hn

/-- Comparisons do not associate: a chain of them is not accepted without parentheses. -/
example [DecidableEq F] (a b c table : String) : parseStatement (F := F) 12
    [.select, .ident a, .eq, .ident b, .eq, .ident c, .fromKw, .ident table, .eof] =
      .error (.expected .fromKw .eq) := rfl

end Statements

end Printing

/-! `SELECT count(*) AS n, * FROM logs WHERE NOT (a OR b) AND -(a + 1) * 2 - (c - d) >=
INTERVAL '5 us' ORDER BY a DESC LIMIT 10`. -/

def sampleFilter : Expr Nat :=
  .binOp .and
    (.unaryOp .not (.binOp .or (.column none "a") (.column none "b")))
    (.binOp .gtEq
      (.binOp .sub
        (.binOp .mul (.unaryOp .neg (.binOp .add (.column none "a") (.literal (.int 1))))
          (.literal (.int 2)))
        (.binOp .sub (.column none "c") (.column none "d")))
      (.interval 5000))

def sampleSelect : SelectStatement Nat where
  projections := [.expr (.function "count" [.star]) (some "n"), .star]
  table := ⟨"logs", none⟩
  joins := []
  filter := some sampleFilter
  groupBy := []
  having := none
  orderBy := [⟨.column none "a", false⟩]
  limit := some 10
  offset := none

theorem printableStatement_sample : PrintableStatement sampleSelect where
  projections_ne := by simp [sampleSelect]
  projections := by simp [sampleSelect, PrintableProjection, Printable, PrintableArgs]
  joins := by simp [sampleSelect]
  filter := by simp [sampleSelect, sampleFilter, Printable]
  groupBy := by simp [sampleSelect]
  having := by simp [sampleSelect]
  orderBy := by simp [sampleSelect, Printable]

theorem parseStatement_sample : PrintableStatement sampleSelect ∧
    @parseStatement Nat _ asciiLetters 60 (statementTokens sampleSelect ++ [.eof]) =
      .ok (.select sampleSelect) :=
  ⟨printableStatement_sample, @parseStatement_statementTokens Nat asciiLetters _ sampleSelect
    printableStatement_sample 60 (by decide)⟩

end InfraLens.Query
