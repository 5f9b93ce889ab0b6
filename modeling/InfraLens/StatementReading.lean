import InfraLens.Reading

/-! Readings of whole statements: a reading of each clause, and that the parser finds the
statement they make up. -/
namespace InfraLens.Query
open LibExcept
open LibParse (Cursor Parses joined)
section Statements
variable {F : Type}

/-- The place of a token among the clauses after the table; 8 is the end of the statement. -/
def clauseRank : Token F → Nat
  | .join | .inner | .left | .right => 1
  | .whereKw => 2
  | .group => 3
  | .having => 4
  | .order => 5
  | .limit => 6
  | .offset => 7
  | .semicolon | .eof => 8
  | _ => 0

/-- A later clause or the end comes next. -/
def Ends (k : Nat) (t : Token F) : Prop := k ≤ clauseRank t

def NoAlias : Token F → Prop
  | .asKw | .ident _ => False
  | _ => True

theorem ends_stops (k : Nat) (hk : 0 < k) (t : Token F) (h : Ends k t) :
    Stops .or t ∧ NoAlias t ∧ t ≠ .comma ∧ t ≠ .asc ∧ t ≠ .desc := by
  have hpos : 0 < clauseRank t := Nat.lt_of_lt_of_le hk h
  cases t <;> first
    | exact absurd hpos (Nat.lt_irrefl 0)
    | exact ⟨Nat.zero_lt_two, trivial, by simp, by simp, by simp⟩

/-! ### The clauses -/

def aliasTokens : Option String → List (Token F)
  | none => []
  | some a => [.asKw, .ident a]

def tableTokens (table : TableRef) : List (Token F) :=
  .ident table.name :: aliasTokens table.aliasName

def joinKindTokens : JoinKind → List (Token F)
  | .inner => [.join]
  | .left => [.left, .join]
  | .right => [.right, .join]

def joinTokens (p : List (Token F) × JoinClause F) : List (Token F) :=
  joinKindTokens p.2.kind ++ (tableTokens p.2.table ++ .on :: p.1)

def clauseTokens {α : Type} (kw : Token F) : Option (List (Token F) × α) → List (Token F)
  | none => []
  | some p => kw :: p.1

def listTokens {α : Type} (kw : Token F) : List (List (Token F) × α) → List (Token F)
  | [] => []
  | p :: ps => kw :: .byKw :: joined .comma ((p :: ps).map Prod.fst)

def countTokens (kw : Token F) : Option UInt64 → List (Token F)
  | none => []
  | some n => [kw, .intLit n.toInt64]

section Readings
variable [Alphabetic]

inductive ReadsProjection : List (Token F) → Projection F → Prop
  | star : ReadsProjection [.star] .star
  | expr {ts : List (Token F)} {e : Expr F} (aliasName : Option String) (h : Reads .or ts e) :
      ReadsProjection (ts ++ aliasTokens aliasName) (.expr e aliasName)

inductive ReadsOrderItem : List (Token F) → OrderByItem F → Prop
  | plain {ts : List (Token F)} {e : Expr F} (h : Reads .or ts e) : ReadsOrderItem ts ⟨e, true⟩
  | asc {ts : List (Token F)} {e : Expr F} (h : Reads .or ts e) :
      ReadsOrderItem (ts ++ [.asc]) ⟨e, true⟩
  | desc {ts : List (Token F)} {e : Expr F} (h : Reads .or ts e) :
      ReadsOrderItem (ts ++ [.desc]) ⟨e, false⟩

/-- A statement clause by clause, each part with the tokens it is read from. -/
structure Clauses (F : Type) [Alphabetic] where
  projections : List (List (Token F) × Projection F)
  table : TableRef
  joins : List (List (Token F) × JoinClause F)
  filter : Option (List (Token F) × Expr F)
  groupBy : List (List (Token F) × Expr F)
  having : Option (List (Token F) × Expr F)
  orderBy : List (List (Token F) × OrderByItem F)
  limit : Option UInt64
  offset : Option UInt64
  projections_ne : projections ≠ []
  reads_projections : ∀ p ∈ projections, ReadsProjection p.1 p.2
  reads_joins : ∀ p ∈ joins, Reads .or p.1 p.2.condition
  reads_filter : ∀ p ∈ filter, Reads .or p.1 p.2
  reads_groupBy : ∀ p ∈ groupBy, Reads .or p.1 p.2
  reads_having : ∀ p ∈ having, Reads .or p.1 p.2
  reads_orderBy : ∀ p ∈ orderBy, ReadsOrderItem p.1 p.2

def Clauses.tokens (s : Clauses F) : List (Token F) :=
  .select :: (joined .comma (s.projections.map Prod.fst) ++ .fromKw :: (tableTokens s.table ++
    (s.joins.flatMap joinTokens ++ (clauseTokens .whereKw s.filter ++
      (listTokens .group s.groupBy ++ (clauseTokens .having s.having ++
        (listTokens .order s.orderBy ++ (countTokens .limit s.limit ++
          countTokens .offset s.offset))))))))

def Clauses.statement (s : Clauses F) : SelectStatement F where
  projections := s.projections.map Prod.snd
  table := s.table
  joins := s.joins.map Prod.snd
  filter := s.filter.map Prod.snd
  groupBy := s.groupBy.map Prod.snd
  having := s.having.map Prod.snd
  orderBy := s.orderBy.map Prod.snd
  limit := s.limit
  offset := s.offset

/-! ### The parser finds the clauses -/

variable [DecidableEq F] {n : Nat}

theorem parses_or {ts : List (Token F)} {e : Expr F} (h : Reads .or ts e) :
    Parses n (parseExpr (n + 1)) (Stops .or) ts e :=
  parses_parseExpr .or (Or.inl rfl) (h.found n)

omit [Alphabetic] in
theorem parses_alias (aliasName : Option String) :
    Parses n (parseAlias : P F (Option String)) NoAlias (aliasTokens aliasName) aliasName := by
  cases aliasName with
  | none =>
    refine Parses.peek_nil fun t ht => ?_
    cases t <;> first | exact Parses.pure none _ | exact absurd ht id
  | some a => exact Parses.peek (Parses.advance_bind ((parses_expectIdent a _).map some))

omit [Alphabetic] in
theorem parses_tableRef (table : TableRef) :
    Parses n (parseTableRef : P F TableRef) NoAlias (tableTokens table) table :=
  (parses_expectIdent table.name fun _ => True).bind
    ((parses_alias table.aliasName).map fun aliasName => TableRef.mk table.name aliasName)
    fun _ _ => trivial

def AfterProjection (t : Token F) : Prop := t = .comma ∨ t = .fromKw

theorem parses_projection {ts : List (Token F)} {p : Projection F} (h : ReadsProjection ts p) :
    Parses n (parseProjection (n + 1)) AfterProjection ts p := by
  cases h with
  | star => exact Parses.peek (Parses.advance_bind (Parses.pure _ _))
  | @expr ts e aliasName h =>
    have hafter : ∀ t : Token F, AfterProjection t → Stops .or t ∧ NoAlias t := by
      rintro t (rfl | rfl)
      · exact ⟨Nat.zero_lt_two, trivial⟩
      · exact ⟨Nat.zero_lt_two, trivial⟩
    refine Parses.peek_else (fun c hc => ?_) ((parses_or h).bind
      (((parses_alias aliasName).mono fun t ht => (hafter t ht).2).map fun aliasName =>
        Projection.expr e aliasName) fun c hc => ?_)
    · obtain ⟨t, us, hts, ht⟩ := h.head
      rw [hts]
      rintro rfl
      exact absurd ht (by simp [Starts, opens, Level.rank])
    · cases aliasName with
      | none => exact (hafter _ hc).1
      | some a => exact Nat.zero_lt_two

omit [DecidableEq F] in
theorem ReadsProjection.head {ts : List (Token F)} {p : Projection F} (h : ReadsProjection ts p) :
    ∃ t us, ts = t :: us ∧ t ≠ .distinct := by
  cases h with
  | star => exact ⟨_, _, rfl, by simp⟩
  | expr aliasName h =>
    obtain ⟨t, us, hts, ht⟩ := h.head
    refine ⟨t, _, by rw [hts, List.cons_append], ?_⟩
    rintro rfl
    exact absurd ht (by simp [Starts, opens, Level.rank])

omit [DecidableEq F] in
theorem projections_head (pairs : List (List (Token F) × Projection F)) (hne : pairs ≠ [])
    (h : ∀ p ∈ pairs, ReadsProjection p.1 p.2) (us : List (Token F)) (c : Cursor (Token F)) :
    (c.before (joined .comma (pairs.map Prod.fst) ++ us)).cur ≠ .distinct := by
  cases pairs with
  | nil => exact absurd rfl hne
  | cons p pairs =>
    obtain ⟨t, ts, hts, ht⟩ := (h p List.mem_cons_self).head
    rw [List.map_cons, joined, hts]
    exact ht

theorem parses_projections (pairs : List (List (Token F) × Projection F)) (hne : pairs ≠ [])
    (h : ∀ p ∈ pairs, ReadsProjection p.1 p.2) :
    Parses n (parseProjections (n + 1)) (· = .fromKw) (joined .comma (pairs.map Prod.fst))
      (pairs.map Prod.snd) := by
  have hsep : ∀ t : Token F, t = .fromKw → t ≠ .comma := by
    rintro t rfl
    simp
  have hlast : ∀ t : Token F, t = .fromKw → AfterProjection t := fun t ht => Or.inr ht
  exact Parses.separated hsep hlast (Or.inl rfl) pairs hne
    (fun p hp => parses_projection (h p hp)) (n + 1) (Nat.le_succ n)

omit [Alphabetic] in
theorem parses_joinKind (kind : JoinKind) :
    Parses n (parseJoinKind : P F (Option JoinKind)) (fun _ => True) (joinKindTokens kind)
      (some kind) := by
  have hjoin : ∀ u : Token F, u = .join → u ≠ .inner := by
    rintro u rfl
    simp
  cases kind with
  | inner => exact Parses.peek (Parses.advance_bind (Parses.pure _ _))
  | left | right =>
    exact Parses.peek (Parses.advance_bind ((Parses.eatOptional_nil Token.inner hjoin).bind
      (parses_expect (Parses.pure _ _)) fun _ _ => rfl))

omit [Alphabetic] in
theorem parses_joinKind_none :
    Parses n (parseJoinKind : P F (Option JoinKind)) (Ends 2) [] none := by
  refine Parses.peek_nil fun t ht => ?_
  cases t <;> first | exact Parses.pure none _ | exact absurd ht (by simp [Ends, clauseRank])

theorem parses_joinsLoop (pairs : List (List (Token F) × JoinClause F))
    (h : ∀ p ∈ pairs, Reads .or p.1 p.2.condition) (k : Nat) (hk : pairs.length < k)
    (joins : List (JoinClause F)) :
    Parses n (parseJoinsLoop (n + 1) k joins) (Ends 2) (pairs.flatMap joinTokens)
      (joins ++ pairs.map Prod.snd) := by
  induction pairs generalizing k joins with
  | nil =>
    cases k with
    | zero => omega
    | succ k =>
      rw [List.map_nil, List.append_nil]
      exact parses_joinKind_none.bind (Parses.pure joins _) fun _ hc => hc
  | cons p pairs ih =>
    cases k with
    | zero => omega
    | succ k =>
      rw [List.length_cons] at hk
      have hrest := ih (fun q hq => h q (List.mem_cons_of_mem _ hq)) k (by omega)
        (joins ++ [⟨p.2.kind, p.2.table, p.2.condition⟩])
      rw [List.append_assoc] at hrest
      -- after the condition another join follows, or what follows the joins
      have hnext : ∀ c : Cursor (Token F), Ends 2 c.cur →
          Stops .or (c.before (pairs.flatMap joinTokens)).cur := by
        intro c hc
        cases pairs with
        | nil => exact (ends_stops 2 (by decide) _ hc).1
        | cons q qs =>
          rw [List.flatMap_cons, joinTokens]
          cases q.2.kind <;> exact Nat.zero_lt_two
      have htokens : (p :: pairs).flatMap joinTokens = joinKindTokens p.2.kind ++
          (tableTokens p.2.table ++ .on :: (p.1 ++ pairs.flatMap joinTokens)) := by
        simp [joinTokens]
      rw [htokens]
      refine (parses_joinKind p.2.kind).bind ?_ fun _ _ => trivial
      refine (parses_tableRef p.2.table).bind (parses_expect ?_) fun _ _ => trivial
      exact (parses_or (h p List.mem_cons_self)).bind hrest hnext

theorem parses_joins (pairs : List (List (Token F) × JoinClause F))
    (h : ∀ p ∈ pairs, Reads .or p.1 p.2.condition) :
    Parses n (parseJoins (n + 1)) (Ends 2) (pairs.flatMap joinTokens) (pairs.map Prod.snd) := by
  intro c hc hn
  have hlength := LibParse.length_le_flatMap joinTokens pairs fun p _ => by
    simp [joinTokens, tableTokens]
    omega
  have hsize := hn
  rw [Cursor.size_before] at hsize
  exact parses_joinsLoop pairs h (n + 1) (by omega) [] c hc hn

omit [Alphabetic] in
theorem parses_clause {α : Type} (kw : Token F) (k : Nat) (hkw : clauseRank kw = k) {p : P F α}
    (o : Option (List (Token F) × α)) (h : ∀ q ∈ o, Parses n p (Ends (k + 1)) q.1 q.2) :
    Parses n (LibParse.optionally kw p) (Ends (k + 1)) (clauseTokens kw o) (o.map Prod.snd) := by
  cases o with
  | none =>
    refine Parses.optionally_none kw p fun u hu => ?_
    rintro rfl
    rw [Ends] at hu
    omega
  | some q => exact Parses.optionally_some kw (h q rfl)

def AfterItem (k : Nat) (t : Token F) : Prop := t = .comma ∨ Ends k t

def listValue {α : Type} : List (List (Token F) × α) → Option (List α)
  | [] => none
  | p :: ps => some ((p :: ps).map Prod.snd)

omit [Alphabetic] [DecidableEq F] in
theorem listValue_getD {α : Type} (pairs : List (List (Token F) × α)) :
    (listValue pairs).getD [] = pairs.map Prod.snd := by
  cases pairs <;> rfl

omit [Alphabetic] in
theorem parses_listClause {α : Type} (kw : Token F) (k : Nat) (hkw : clauseRank kw = k)
    {item : P F α} (pairs : List (List (Token F) × α))
    (h : ∀ q ∈ pairs, Parses n item (AfterItem (k + 1)) q.1 q.2) :
    Parses n (LibParse.optionally kw (parseBy (n + 1) item)) (Ends (k + 1)) (listTokens kw pairs)
      (listValue pairs) := by
  cases pairs with
  | nil => exact parses_clause kw k hkw none fun q hq => by cases hq
  | cons p ps =>
    have hsep : ∀ t : Token F, Ends (k + 1) t → t ≠ .comma := fun t ht =>
      (ends_stops (k + 1) (Nat.succ_pos k) t ht).2.2.1
    have hlast : ∀ t : Token F, Ends (k + 1) t → AfterItem (k + 1) t := fun t ht => Or.inr ht
    have hitems := Parses.separated hsep hlast (Or.inl rfl) (p :: ps) (by simp) h (n + 1)
      (Nat.le_succ n)
    exact Parses.optionally_some kw (parses_expect hitems)

omit [Alphabetic] in
theorem parses_count (kw : Token F) (k : Nat) (hkw : clauseRank kw = k) (o : Option UInt64) :
    Parses n (LibParse.optionally kw (expectInt : P F Int64)) (Ends (k + 1)) (countTokens kw o)
      (o.map UInt64.toInt64) := by
  cases o with
  | none => exact parses_clause kw k hkw none fun q hq => by cases hq
  | some m =>
    exact Parses.optionally_some kw (Parses.advance_bind (Parses.pure m.toInt64 _))

theorem parses_orderItem (k : Nat) {ts : List (Token F)} {item : OrderByItem F}
    (h : ReadsOrderItem ts item) :
    Parses n (parseOrderByItem (n + 1)) (AfterItem (k + 1)) ts item := by
  have hafter : ∀ t : Token F, AfterItem (k + 1) t → Stops .or t ∧ t ≠ .asc ∧ t ≠ .desc := by
    rintro t (rfl | ht)
    · exact ⟨Nat.zero_lt_two, by simp, by simp⟩
    · have hends := ends_stops (k + 1) (Nat.succ_pos k) t ht
      exact ⟨hends.1, hends.2.2.2⟩
  cases h with
  | @plain ts e h =>
    rw [← List.append_nil ts]
    refine (parses_or h).bind (Parses.peek_nil fun t ht => ?_) fun c hc => (hafter _ hc).1
    obtain ⟨_, hasc, hdesc⟩ := hafter t ht
    cases t <;> first | exact Parses.pure _ _ | exact absurd rfl hasc | exact absurd rfl hdesc
  | asc h =>
    exact (parses_or h).bind (Parses.peek (Parses.advance_bind (Parses.pure _ _)))
      fun _ _ => Nat.zero_lt_two
  | desc h =>
    exact (parses_or h).bind (Parses.peek (Parses.advance_bind (Parses.pure _ _)))
      fun _ _ => Nat.zero_lt_two

/-! ### The statement -/

/-- Before the end of a statement, the tokens start with a clause of the rank or a later one. -/
def EndsBefore (k : Nat) (us : List (Token F)) : Prop :=
  ∀ c : Cursor (Token F), Ends 8 c.cur → Ends k (c.before us).cur

omit [Alphabetic] [DecidableEq F] in
theorem endsBefore_append (k : Nat) (us vs : List (Token F)) (h : EndsBefore (k + 1) vs)
    (hus : us = [] ∨ ∃ t ts, us = t :: ts ∧ clauseRank t = k) : EndsBefore k (us ++ vs) := by
  intro c hc
  cases hus with
  | inl hnil =>
    rw [hnil, List.nil_append]
    exact Nat.le_trans (Nat.le_succ k) (h c hc)
  | inr hcons =>
    obtain ⟨t, ts, hts, ht⟩ := hcons
    rw [hts]
    exact Nat.le_of_eq ht.symm

omit [Alphabetic] [DecidableEq F] in
theorem clauseTokens_head {α : Type} (kw : Token F) (o : Option (List (Token F) × α)) :
    clauseTokens kw o = [] ∨
      ∃ t ts, clauseTokens kw o = t :: ts ∧ clauseRank t = clauseRank kw := by
  cases o with
  | none => exact Or.inl rfl
  | some p => exact Or.inr ⟨kw, p.1, rfl, rfl⟩

omit [Alphabetic] [DecidableEq F] in
theorem listTokens_head {α : Type} (kw : Token F) (pairs : List (List (Token F) × α)) :
    listTokens kw pairs = [] ∨
      ∃ t ts, listTokens kw pairs = t :: ts ∧ clauseRank t = clauseRank kw := by
  cases pairs with
  | nil => exact Or.inl rfl
  | cons p ps => exact Or.inr ⟨kw, _, rfl, rfl⟩

omit [Alphabetic] [DecidableEq F] in
theorem countTokens_head (kw : Token F) (o : Option UInt64) :
    countTokens kw o = [] ∨ ∃ t ts, countTokens kw o = t :: ts ∧ clauseRank t = clauseRank kw := by
  cases o with
  | none => exact Or.inl rfl
  | some m => exact Or.inr ⟨kw, _, rfl, rfl⟩

omit [Alphabetic] [DecidableEq F] in
theorem joinTokens_head (pairs : List (List (Token F) × JoinClause F)) :
    pairs.flatMap joinTokens = [] ∨
      ∃ t ts, pairs.flatMap joinTokens = t :: ts ∧ clauseRank t = 1 := by
  cases pairs with
  | nil => exact Or.inl rfl
  | cons p ps =>
    rw [List.flatMap_cons, joinTokens]
    cases p.2.kind <;> exact Or.inr ⟨_, _, rfl, rfl⟩

omit [DecidableEq F] in
theorem Clauses.statement_eq (s : Clauses F) :
    (⟨s.projections.map Prod.snd, s.table, s.joins.map Prod.snd, s.filter.map Prod.snd,
      (listValue s.groupBy).getD [], s.having.map Prod.snd, (listValue s.orderBy).getD [],
      (s.limit.map UInt64.toInt64).map Int64.toUInt64,
      (s.offset.map UInt64.toInt64).map Int64.toUInt64⟩ : SelectStatement F) = s.statement := by
  have hcount : ∀ o : Option UInt64, (o.map UInt64.toInt64).map Int64.toUInt64 = o := by
    intro o
    cases o <;> simp
  rw [listValue_getD, listValue_getD, hcount, hcount]
  rfl

theorem parses_select (s : Clauses F) : Parses n (parseSelect n) (Ends 8) s.tokens s.statement := by
  cases n with
  | zero => exact Parses.zero _ _ _ _
  | succ m =>
    have hoffset : EndsBefore 7 (countTokens (.offset : Token F) s.offset) := by
      rw [← List.append_nil (countTokens _ _)]
      exact endsBefore_append 7 _ [] (fun c hc => hc) (countTokens_head _ _)
    have hlimit := endsBefore_append 6 _ _ hoffset (countTokens_head .limit s.limit)
    have horder := endsBefore_append 5 _ _ hlimit (listTokens_head .order s.orderBy)
    have hhaving := endsBefore_append 4 _ _ horder (clauseTokens_head .having s.having)
    have hgroup := endsBefore_append 3 _ _ hhaving (listTokens_head .group s.groupBy)
    have hwhere := endsBefore_append 2 _ _ hgroup (clauseTokens_head .whereKw s.filter)
    have hjoins := endsBefore_append 1 _ _ hwhere (joinTokens_head s.joins)
    have hor : ∀ k (q : List (Token F) × Expr F), Reads .or q.1 q.2 →
        Parses m (parseExpr (m + 1)) (Ends (k + 1)) q.1 q.2 := fun k q hq =>
      (parses_or hq).mono fun t ht => (ends_stops (k + 1) (Nat.succ_pos k) t ht).1
    have hitem : ∀ k (q : List (Token F) × Expr F), Reads .or q.1 q.2 →
        Parses m (parseExpr (m + 1)) (AfterItem (k + 1)) q.1 q.2 := by
      intro k q hq
      refine (parses_or hq).mono ?_
      rintro t (rfl | ht)
      · exact Nat.zero_lt_two
      · exact (ends_stops (k + 1) (Nat.succ_pos k) t ht).1
    rw [← s.statement_eq]
    refine Parses.expect_succ ((Parses.eatOptional_nil Token.distinct fun u hu => hu).bind ?_
      fun c _ => projections_head s.projections s.projections_ne s.reads_projections _ c)
    refine (parses_projections s.projections s.projections_ne s.reads_projections).bind
      (parses_expect ?_) fun _ _ => rfl
    refine (parses_tableRef s.table).bind ?_ fun c hc =>
      (ends_stops 1 (by decide) _ (hjoins c hc)).2.1
    refine (parses_joins s.joins s.reads_joins).bind ?_ hwhere
    refine (parses_clause .whereKw 2 rfl s.filter fun q hq => hor 2 q (s.reads_filter q hq)).bind
      ?_ hgroup
    refine (parses_listClause .group 3 rfl s.groupBy fun q hq =>
      hitem 3 q (s.reads_groupBy q hq)).bind ?_ hhaving
    refine (parses_clause .having 4 rfl s.having fun q hq => hor 4 q (s.reads_having q hq)).bind
      ?_ horder
    refine (parses_listClause .order 5 rfl s.orderBy fun q hq =>
      parses_orderItem 5 (s.reads_orderBy q hq)).bind ?_ hlimit
    refine (parses_count .limit 6 rfl s.limit).bind ?_ hoffset
    exact (parses_count .offset 7 rfl s.offset).map _

def semicolonTokens (semicolon : Bool) : List (Token F) := if semicolon then [.semicolon] else []

omit [Alphabetic] in
theorem run_semicolon (semicolon : Bool) :
    (LibParse.eatOptional .semicolon : P F Bool).run
      ((⟨.eof, []⟩ : Cursor (Token F)).before (semicolonTokens semicolon)) =
        .ok (semicolon, ⟨.eof, []⟩) := by
  have heof : ∀ u : Token F, u = .eof → u ≠ .semicolon := by
    rintro u rfl
    simp
  cases semicolon with
  | true =>
    exact Parses.eatOptional_one (n := 3) Token.semicolon (fun _ => True) ⟨.eof, []⟩ trivial
      (Nat.lt_succ_self 2)
  | false =>
    exact Parses.eatOptional_nil (n := 2) Token.semicolon heof ⟨.eof, []⟩ rfl (Nat.lt_succ_self 1)

theorem parseStatement_clauses (s : Clauses F) (semicolon : Bool)
    (hn : (s.tokens ++ semicolonTokens semicolon).length + 1 < n) :
    parseStatement n (s.tokens ++ semicolonTokens semicolon ++ [.eof]) =
      .ok (.select s.statement) := by
  obtain ⟨t, ts, hlist, hcursor⟩ :=
    Cursor.before_toList (s.tokens ++ semicolonTokens semicolon) .eof
  have hends : Ends 8 ((⟨.eof, []⟩ : Cursor (Token F)).before (semicolonTokens semicolon)).cur := by
    cases semicolon <;> exact Nat.le_refl 8
  have hselect := parses_select (n := n) s _ hends (by
    rw [← Cursor.before_append, Cursor.size_before]
    exact hn)
  have heof : (expect .eof : P F Unit).run ⟨.eof, []⟩ = .ok ((), ⟨.eof, []⟩) := rfl
  have hrun : (statement n).run ⟨t, ts⟩ = .ok (.select s.statement, ⟨.eof, []⟩) := by
    rw [hcursor, Cursor.before_append]
    have hcur : (((⟨.eof, []⟩ : Cursor (Token F)).before (semicolonTokens semicolon)).before
        s.tokens).cur = .select := rfl
    simp only [statement, StateT.run_bind, LibParse.run_peek, ok_bind, hcur, if_true,
      hselect, run_semicolon, heof]
    rfl
  rw [hlist, parseStatement, hrun]

end Readings

end Statements

end InfraLens.Query
