import InfraLens.Parser

/-! Which token lists are readings of an expression at a level of the documented precedence
chain, and that the parser finds each of them. -/
namespace InfraLens.Query
open LibParse (Cursor Parses Chains joined peek advance)

/-- The levels of the precedence chain, from the loosest, with one for arguments of functions
above them. -/
inductive Level where
  | argument | or | and | not | comparison | addition | multiplication | unary | primary
  deriving DecidableEq

def Level.rank : Level → Nat
  | .argument => 1
  | .or => 2
  | .and => 3
  | .not => 4
  | .comparison => 5
  | .addition => 6
  | .multiplication => 7
  | .unary => 8
  | .primary => 9

def Level.next : Level → Level
  | .argument => .or
  | .or => .and
  | .and => .not
  | .not => .comparison
  | .comparison => .addition
  | .addition => .multiplication
  | .multiplication => .unary
  | .unary => .primary
  | .primary => .primary

def BinOp.level : BinOp → Level
  | .or => .or
  | .and => .and
  | .eq | .notEq | .lt | .ltEq | .gt | .gtEq => .comparison
  | .add | .sub => .addition
  | .mul | .div | .mod => .multiplication

def UnaryOp.level : UnaryOp → Level
  | .not => .not
  | .neg => .unary

section Tokens
variable {F : Type}

def BinOp.token : BinOp → Token F
  | .or => .or
  | .and => .and
  | .eq => .eq
  | .notEq => .notEq
  | .lt => .lt
  | .ltEq => .ltEq
  | .gt => .gt
  | .gtEq => .gtEq
  | .add => .plus
  | .sub => .minus
  | .mul => .star
  | .div => .slash
  | .mod => .percent

def UnaryOp.token : UnaryOp → Token F
  | .not => .not
  | .neg => .minus

/-- The rank of the level at which a token goes on with an expression before it. -/
def joins : Token F → Nat
  | .or => 2
  | .and => 3
  | .eq | .notEq | .lt | .ltEq | .gt | .gtEq | .is | .between | .not | .inKw | .like => 5
  | .plus | .minus => 6
  | .star | .slash | .percent => 7
  | .dot | .lParen => 9
  | _ => 0

/-- An expression of the level ends before the token. -/
def Stops (l : Level) (t : Token F) : Prop := joins t < l.rank

/-- The rank of the tightest level whose expressions can start with a token. -/
def opens : Token F → Nat
  | .star => 1
  | .not => 4
  | .minus => 8
  | .intLit _ | .floatLit _ | .strLit _ | .trueKw | .falseKw | .null | .lParen | .interval
  | .ident _ => 9
  | _ => 0

def Starts (l : Level) (t : Token F) : Prop := l.rank ≤ opens t

/-- The binary operators of a level whose operators associate to the left. -/
def chainOp : Level → Token F → Option (Expr F → Expr F → Expr F)
  | .or => orOp
  | .and => andOp
  | .addition => additionOp
  | .multiplication => multiplicationOp
  | _ => fun _ => none

def prefixOp : Level → Token F → Option (Expr F → Expr F)
  | .not => notOp
  | .unary => unaryOp
  | _ => fun _ => none

def literalToken : Literal F → Option (Token F)
  | .int n => some (.intLit n)
  | .float f => some (.floatLit f)
  | .str s => some (.strLit s)
  | .bool true => some .trueKw
  | .bool false => some .falseKw
  | .null => some .null
  | .intervalNs _ => none

theorem Level.rank_le_next (l : Level) : l.rank ≤ l.next.rank := by
  cases l <;> decide

/-! The operators each table has. -/

theorem chainOp_some (l : Level) (t : Token F) (f : Expr F → Expr F → Expr F)
    (h : chainOp l t = some f) :
    ∃ op : BinOp, f = .binOp op ∧ t = op.token ∧ op.level = l ∧ l ≠ .comparison := by
  cases l with
  | or =>
    rw [chainOp, orOp.eq_def] at h
    split at h <;> cases h
    exact ⟨.or, rfl, rfl, rfl, by decide⟩
  | and =>
    rw [chainOp, andOp.eq_def] at h
    split at h <;> cases h
    exact ⟨.and, rfl, rfl, rfl, by decide⟩
  | addition =>
    rw [chainOp, additionOp.eq_def] at h
    split at h <;> cases h
    · exact ⟨.add, rfl, rfl, rfl, by decide⟩
    · exact ⟨.sub, rfl, rfl, rfl, by decide⟩
  | multiplication =>
    rw [chainOp, multiplicationOp.eq_def] at h
    split at h <;> cases h
    · exact ⟨.mul, rfl, rfl, rfl, by decide⟩
    · exact ⟨.div, rfl, rfl, rfl, by decide⟩
    · exact ⟨.mod, rfl, rfl, rfl, by decide⟩
  | argument | not | comparison | unary | primary => cases h

theorem prefixOp_some (l : Level) (t : Token F) (f : Expr F → Expr F) (h : prefixOp l t = some f) :
    ∃ op : UnaryOp, f = .unaryOp op ∧ t = op.token ∧ op.level = l := by
  cases l with
  | not =>
    rw [prefixOp, notOp.eq_def] at h
    split at h <;> cases h
    exact ⟨.not, rfl, rfl, rfl⟩
  | unary =>
    rw [prefixOp, unaryOp.eq_def] at h
    split at h <;> cases h
    exact ⟨.neg, rfl, rfl, rfl⟩
  | argument | or | and | comparison | addition | multiplication | primary => cases h

theorem comparisonOp_some (t : Token F) (op : BinOp) (h : comparisonOp t = some op) :
    t = op.token ∧ op.level = .comparison := by
  rw [comparisonOp.eq_def] at h
  split at h <;> cases h <;> exact ⟨rfl, rfl⟩

theorem BinOp.joins_token (op : BinOp) :
    joins (op.token : Token F) = op.level.rank ∧ op.level.rank < op.level.next.rank := by
  cases op <;> exact ⟨rfl, by decide⟩

theorem UnaryOp.opens_token (op : UnaryOp) :
    opens (op.token : Token F) = op.level.rank ∧ op.level.rank < op.level.next.rank := by
  cases op <;> exact ⟨rfl, by decide⟩

theorem joins_of_chainOp (l : Level) (t : Token F) (f : Expr F → Expr F → Expr F)
    (h : chainOp l t = some f) : joins t = l.rank ∧ l.rank < l.next.rank := by
  obtain ⟨op, _, rfl, rfl, _⟩ := chainOp_some l t f h
  exact op.joins_token

theorem opens_of_prefixOp (l : Level) (t : Token F) (f : Expr F → Expr F)
    (h : prefixOp l t = some f) : opens t = l.rank ∧ l.rank < l.next.rank := by
  obtain ⟨op, _, rfl, rfl⟩ := prefixOp_some l t f h
  exact op.opens_token

theorem joins_of_comparisonOp (t : Token F) (op : BinOp) (h : comparisonOp t = some op) :
    joins t = 5 := by
  obtain ⟨rfl, hlevel⟩ := comparisonOp_some t op h
  rw [op.joins_token.1, hlevel]
  rfl

theorem opens_of_literalToken (lit : Literal F) (t : Token F) (h : literalToken lit = some t) :
    opens t = 9 := by
  rw [literalToken.eq_def] at h
  split at h
  all_goals first | cases h; rfl | cases h

/-- The tokens `ts` read as `e` at a level. Operators of one level associate to the left, except
that comparisons do not associate. -/
inductive Reads [Alphabetic] : Level → List (Token F) → Expr F → Prop
  | lift (l : Level) {ts : List (Token F)} {e : Expr F} (h : Reads l.next ts e) : Reads l ts e
  | star : Reads .argument [.star] .star
  | binary (l : Level) {ts us : List (Token F)} {a b : Expr F} {t : Token F}
      {f : Expr F → Expr F → Expr F} (hop : chainOp l t = some f) (hleft : Reads l ts a)
      (hright : Reads l.next us b) : Reads l (ts ++ t :: us) (f a b)
  | unary (l : Level) {ts : List (Token F)} {a : Expr F} {t : Token F} {f : Expr F → Expr F}
      (hop : prefixOp l t = some f) (h : Reads l ts a) : Reads l (t :: ts) (f a)
  | compare {ts us : List (Token F)} {a b : Expr F} {t : Token F} {op : BinOp}
      (hop : comparisonOp t = some op) (hleft : Reads .addition ts a)
      (hright : Reads .addition us b) : Reads .comparison (ts ++ t :: us) (.binOp op a b)
  | isNull {ts : List (Token F)} {a : Expr F} (h : Reads .addition ts a) :
      Reads .comparison (ts ++ [.is, .null]) (.isNull a)
  | isNotNull {ts : List (Token F)} {a : Expr F} (h : Reads .addition ts a) :
      Reads .comparison (ts ++ [.is, .not, .null]) (.isNotNull a)
  | between {ts us vs : List (Token F)} {a b c : Expr F} (h : Reads .addition ts a)
      (hlow : Reads .addition us b) (hhigh : Reads .addition vs c) :
      Reads .comparison (ts ++ .between :: (us ++ .and :: vs)) (.between a b c)
  | inList {ts : List (Token F)} {a : Expr F} (pairs : List (List (Token F) × Expr F))
      (hne : pairs ≠ []) (h : Reads .addition ts a) (hlist : ∀ p ∈ pairs, Reads .or p.1 p.2) :
      Reads .comparison
        (ts ++ .inKw :: .lParen :: (joined .comma (pairs.map Prod.fst) ++ [.rParen]))
        (.inList a (pairs.map Prod.snd))
  | like {ts : List (Token F)} {a : Expr F} (pattern : String) (h : Reads .addition ts a) :
      Reads .comparison (ts ++ [.like, .strLit pattern]) (.like a pattern false)
  | notLike {ts : List (Token F)} {a : Expr F} (pattern : String) (h : Reads .addition ts a) :
      Reads .comparison (ts ++ [.not, .like, .strLit pattern]) (.like a pattern true)
  | literal {lit : Literal F} {t : Token F} (h : literalToken lit = some t) :
      Reads .primary [t] (.literal lit)
  | interval {s : String} {ns : Int64} (h : parseInterval (F := F) s = .ok ns) :
      Reads .primary [.interval, .strLit s] (.interval ns)
  | column (name : String) : Reads .primary [.ident name] (.column none name)
  | qualified (table name : String) :
      Reads .primary [.ident table, .dot, .ident name] (.column (some table) name)
  | call (name : String) (pairs : List (List (Token F) × Expr F))
      (h : ∀ p ∈ pairs, Reads .argument p.1 p.2) :
      Reads .primary
        (.ident name :: .lParen :: (joined .comma (pairs.map Prod.fst) ++ [.rParen]))
        (.function (String.ofList (name.toList.map Char.toLower)) (pairs.map Prod.snd))
  | paren {ts : List (Token F)} {e : Expr F} (h : Reads .or ts e) :
      Reads .primary (.lParen :: (ts ++ [.rParen])) e

variable [Alphabetic]

theorem Reads.head {l : Level} {ts : List (Token F)} {e : Expr F} (h : Reads l ts e) :
    ∃ t us, ts = t :: us ∧ Starts l t := by
  induction h with
  | lift l h ih =>
    obtain ⟨t, us, hts, ht⟩ := ih
    exact ⟨t, us, hts, Nat.le_trans l.rank_le_next ht⟩
  | binary l hop hleft hright ihl ihr =>
    obtain ⟨t, us, hts, ht⟩ := ihl
    exact ⟨t, _, by rw [hts, List.cons_append], ht⟩
  | @unary l ts a t f hop h ih =>
    exact ⟨t, ts, rfl, Nat.le_of_eq (opens_of_prefixOp l t f hop).1.symm⟩
  | compare hop hleft hright ihl ihr =>
    obtain ⟨t, us, hts, ht⟩ := ihl
    exact ⟨t, _, by rw [hts, List.cons_append], Nat.le_trans (by decide) ht⟩
  | isNull h ih | isNotNull h ih | like pattern h ih | notLike pattern h ih
  | inList pairs hne h hlist ih ihlist =>
    obtain ⟨t, us, hts, ht⟩ := ih
    exact ⟨t, _, by rw [hts, List.cons_append], Nat.le_trans (by decide) ht⟩
  | between h hlow hhigh ih ihlow ihhigh =>
    obtain ⟨t, us, hts, ht⟩ := ih
    exact ⟨t, _, by rw [hts, List.cons_append], Nat.le_trans (by decide) ht⟩
  | @literal lit t h =>
    exact ⟨t, [], rfl, Nat.le_of_eq (opens_of_literalToken lit t h).symm⟩
  | star | interval h | column name | qualified table name | call name pairs h ih | paren h ih =>
    exact ⟨_, _, rfl, by simp [Starts, opens, Level.rank]⟩

/-! ### The parser finds every reading -/

section Complete
variable [DecidableEq F] {n : Nat}

def levelParser (n : Nat) : Level → P F (Expr F)
  | .argument => parseOr n (parseExpr n)
  | .or => parseOr n (parseExpr n)
  | .and => parseAnd n (parseExpr n)
  | .not => parseNot n (parseExpr n)
  | .comparison => parseComparison n (parseExpr n)
  | .addition => parseAddition n (parseExpr n)
  | .multiplication => parseMultiplication n (parseExpr n)
  | .unary => parseUnary n (parseExpr n)
  | .primary => parsePrimary n (parseExpr n)

/-- The parser of a level finds a reading. Where the level is a loop or a recursion, this is said
of the loop with any counter, since a longer reading goes on from there. -/
def Found (n : Nat) (l : Level) (ts : List (Token F)) (e : Expr F) : Prop :=
  match l with
  | .or | .and | .addition | .multiplication =>
    Chains n (chainOp l) (levelParser n l.next) (Stops l.next) ts e
  | .not | .unary => ∀ k (c : Cursor (Token F)), Stops l c.cur → (c.before ts).size < n →
      (c.before ts).size < k →
        (LibParse.prefixed (prefixOp l) (levelParser n l.next) k).run (c.before ts) = .ok (e, c)
  | .argument | .comparison | .primary => Parses n (levelParser n l) (Stops l) ts e

omit [Alphabetic] [DecidableEq F] in
theorem chainOp_stop (l : Level) (t : Token F) (h : Stops l t) : chainOp l t = none := by
  cases hop : chainOp l t with
  | none => rfl
  | some f =>
    have hjoins := (joins_of_chainOp l t f hop).1
    rw [Stops] at h
    omega

omit [Alphabetic] [DecidableEq F] in
theorem prefixOp_start (l : Level) (t : Token F) (h : Starts l.next t) : prefixOp l t = none := by
  cases hop : prefixOp l t with
  | none => rfl
  | some f =>
    have hopens := opens_of_prefixOp l t f hop
    rw [Starts] at h
    omega

omit [Alphabetic] [DecidableEq F] in
theorem Stops.next {l : Level} {t : Token F} (h : Stops l t) : Stops l.next t :=
  Nat.lt_of_lt_of_le h l.rank_le_next

theorem Found.parses {l : Level} {ts : List (Token F)} {e : Expr F} (h : Found n l ts e) :
    Parses n (levelParser n l) (Stops l) ts e := by
  cases l with
  | or | and | addition | multiplication =>
    exact Chains.parses h (fun t ht => ht.next) fun t ht => chainOp_stop _ t ht
  | not | unary => exact fun c hc hn => h n c hc hn hn
  | argument | comparison | primary => exact h

theorem Found.binary (l : Level) {ts us : List (Token F)} {a b : Expr F} {t : Token F}
    {f : Expr F → Expr F → Expr F} (hop : chainOp l t = some f) (hleft : Found n l ts a)
    (hright : Found n l.next us b) : Found n l (ts ++ t :: us) (f a b) := by
  have ht : Stops l.next t := by
    obtain ⟨hjoins, hlt⟩ := joins_of_chainOp l t f hop
    rw [Stops]
    omega
  cases l with
  | or | and | addition | multiplication => exact Chains.more hleft ht hop hright.parses
  | argument | not | comparison | unary | primary => cases hop

theorem Found.unary (l : Level) {ts : List (Token F)} {a : Expr F} {t : Token F}
    {f : Expr F → Expr F} (hop : prefixOp l t = some f) (h : Found n l ts a) :
    Found n l (t :: ts) (f a) := by
  cases l with
  | not | unary =>
    intro k c hc hn hk
    rw [Cursor.before_cons, Cursor.size_push] at hn hk
    cases k with
    | zero => omega
    | succ k => exact LibParse.prefixed_push k hop (h k c hc (by omega) (by omega))
  | argument | or | and | comparison | addition | multiplication | primary => cases hop

theorem parseComparisonRest_nil (expr : P F (Expr F)) (left : Expr F) :
    Parses n (parseComparisonRest n expr left) (Stops .comparison) [] left := by
  refine Parses.peek_nil fun t ht => ?_
  cases t <;> first | exact Parses.pure left _ | simp [Stops, joins, Level.rank] at ht

theorem Found.lift (l : Level) {ts : List (Token F)} {e : Expr F}
    (hhead : ∃ t us, ts = t :: us ∧ prefixOp l t = none) (h : Found n l.next ts e) :
    Found n l ts e := by
  cases l with
  | argument => exact h.parses.mono fun t ht => ht.next
  | or | and | addition | multiplication => exact Chains.one h.parses
  | not | unary =>
    intro k c hc hn hk
    obtain ⟨t, us, hts, ht⟩ := hhead
    have hcur : (c.before ts).cur = t := by rw [hts, Cursor.before_cons, Cursor.cur_push]
    cases k with
    | zero => omega
    | succ k =>
      rw [LibParse.prefixed_item k (by rw [hcur]; exact ht)]
      exact h.parses c hc.next hn
  | comparison =>
    have hpair := h.parses.bind (parseComparisonRest_nil (parseExpr n) e) fun c hc => hc.next
    rwa [List.append_nil] at hpair
  | primary => exact h

/-! The constructs that recurse through whole expressions: after their first token there is fuel
for one recursion. -/

omit [Alphabetic] in
theorem parses_expect {β : Type} {k : Unit → P F β} {f : Token F → Prop} {t : Token F}
    {us : List (Token F)} {b : β} (hk : Parses n (k ()) f us b) :
    Parses n (expect t >>= k) f (t :: us) b :=
  Parses.expect_bind hk

omit [Alphabetic] [DecidableEq F] in
theorem parses_expectString (s : String) (f : Token F → Prop) :
    Parses n (expectString : P F String) f [.strLit s] s :=
  Parses.advance_bind (Parses.pure s f)

omit [Alphabetic] [DecidableEq F] in
theorem parses_expectIdent (s : String) (f : Token F → Prop) :
    Parses n (expectIdent : P F String) f [.ident s] s :=
  Parses.advance_bind (Parses.pure s f)

theorem parses_parseExpr (l : Level) (hl : l = .or ∨ l = .argument) {ts : List (Token F)}
    {e : Expr F} (h : Found n l ts e) : Parses n (parseExpr (n + 1)) (Stops l) ts e := by
  cases hl with
  | inl hl => subst hl; exact h.parses
  | inr hl => subst hl; exact h.parses

theorem parses_list (l : Level) (hl : l = .or ∨ l = .argument)
    (pairs : List (List (Token F) × Expr F)) (hne : pairs ≠ [])
    (h : ∀ p ∈ pairs, Found n l p.1 p.2) :
    Parses n (parseCommaSeparated (n + 1) (parseExpr (n + 1))) (· = .rParen)
      (joined .comma (pairs.map Prod.fst)) (pairs.map Prod.snd) := by
  have hstops : Stops l (.rParen : Token F) ∧ Stops l (.comma : Token F) := by
    cases hl with
    | inl hl => subst hl; exact ⟨Nat.zero_lt_two, Nat.zero_lt_two⟩
    | inr hl => subst hl; exact ⟨Nat.zero_lt_one, Nat.zero_lt_one⟩
  have hsep : ∀ t : Token F, t = .rParen → t ≠ .comma := by
    rintro t rfl
    simp
  have hstop : ∀ t : Token F, t = .rParen → Stops l t := by
    rintro t rfl
    exact hstops.1
  exact Parses.separated hsep hstop hstops.2 pairs hne
    (fun p hp => parses_parseExpr l hl (h p hp)) (n + 1) (Nat.le_succ n)

theorem parses_inList (pairs : List (List (Token F) × Expr F)) (hne : pairs ≠ [])
    (h : ∀ p ∈ pairs, Found n .or p.1 p.2) (f : Token F → Prop) :
    Parses n (parseInList (n + 1) (parseExpr (n + 1))) f
      (.lParen :: (joined .comma (pairs.map Prod.fst) ++ [.rParen])) (pairs.map Prod.snd) :=
  parses_expect ((parses_list .or (Or.inl rfl) pairs hne h).bind
    (parses_expect (Parses.pure _ f)) fun _ _ => rfl)

theorem parses_args (pairs : List (List (Token F) × Expr F))
    (hreads : ∀ p ∈ pairs, Reads .argument p.1 p.2)
    (h : ∀ p ∈ pairs, Found n .argument p.1 p.2) :
    Parses n (parseArgs (n + 1) (parseExpr (n + 1))) (· = .rParen)
      (joined .comma (pairs.map Prod.fst)) (pairs.map Prod.snd) := by
  cases pairs with
  | nil =>
    refine Parses.peek_nil fun t ht => ?_
    rw [if_pos ht]
    exact Parses.pure [] _
  | cons p pairs =>
    refine Parses.peek_else (fun c hc => ?_)
      (parses_list .argument (Or.inr rfl) (p :: pairs) (by simp) h)
    obtain ⟨t, us, hts, ht⟩ := (hreads p List.mem_cons_self).head
    rw [List.map_cons, joined, hts]
    rintro rfl
    exact absurd ht (by simp [Starts, opens, Level.rank])

theorem found_comparison {ts us : List (Token F)} {a e : Expr F} (h : Found n .addition ts a)
    (hus : ∀ c : Cursor (Token F), Stops .comparison c.cur → Stops .addition (c.before us).cur)
    (hrest : Parses n (parseComparisonRest n (parseExpr n) a) (Stops .comparison) us e) :
    Found n .comparison (ts ++ us) e :=
  h.parses.bind hrest hus

theorem found_star (n : Nat) : Found n .argument [(.star : Token F)] .star := by
  have hhead : ∀ l, ∃ t us, [(.star : Token F)] = t :: us ∧ prefixOp l t = none := fun l =>
    ⟨.star, [], rfl, by cases l <;> rfl⟩
  have hprimary : Found n .primary [(.star : Token F)] .star :=
    Parses.peek (Parses.advance_bind (Parses.pure _ _))
  have hmultiplication : Found n .multiplication [(.star : Token F)] .star :=
    Found.lift _ (hhead _) (Found.lift .unary (hhead _) hprimary)
  have hcomparison : Found n .comparison [(.star : Token F)] .star :=
    Found.lift _ (hhead _) (Found.lift .addition (hhead _) hmultiplication)
  have hor : Found n .or [(.star : Token F)] .star :=
    Found.lift _ (hhead _) (Found.lift .and (hhead _) (Found.lift .not (hhead _) hcomparison))
  exact Found.lift _ (hhead _) hor

/-! One lemma for each construct that is not an operator of a chain. -/

section Constructs
variable {ts : List (Token F)} {a : Expr F}

theorem found_compare {us : List (Token F)} {b : Expr F} {t : Token F} {op : BinOp}
    (hop : comparisonOp t = some op) (hleft : Found n .addition ts a)
    (hright : Found n .addition us b) : Found n .comparison (ts ++ t :: us) (.binOp op a b) := by
  have ht : Stops .addition t := by
    rw [Stops, joins_of_comparisonOp t op hop]
    decide
  refine found_comparison hleft (fun _ _ => ht) (Parses.peek ?_)
  rw [hop]
  exact Parses.advance_bind
    ((hright.parses.mono fun _ hc => hc.next).map fun right => Expr.binOp op a right)

theorem found_isNull (h : Found n .addition ts a) :
    Found n .comparison (ts ++ [.is, .null]) (.isNull a) := by
  refine found_comparison h (fun _ _ => Nat.lt_succ_self 5) (Parses.peek ?_)
  have hnot : ∀ u : Token F, u = .null → u ≠ .not := by
    rintro u rfl
    simp
  exact Parses.advance_bind ((Parses.eatOptional_nil Token.not hnot).bind
    (parses_expect (Parses.pure _ _)) fun _ _ => rfl)

theorem found_isNotNull (h : Found n .addition ts a) :
    Found n .comparison (ts ++ [.is, .not, .null]) (.isNotNull a) := by
  refine found_comparison h (fun _ _ => Nat.lt_succ_self 5) (Parses.peek ?_)
  exact Parses.advance_bind ((Parses.eatOptional_one Token.not fun _ => True).bind
    (parses_expect (Parses.pure _ _)) fun _ _ => trivial)

theorem found_between {us vs : List (Token F)} {b c : Expr F} (h : Found n .addition ts a)
    (hlow : Found n .addition us b) (hhigh : Found n .addition vs c) :
    Found n .comparison (ts ++ .between :: (us ++ .and :: vs)) (.between a b c) := by
  refine found_comparison h (fun _ _ => Nat.lt_succ_self 5) (Parses.peek ?_)
  have hlast := (hhigh.parses.mono fun t (ht : Stops .comparison t) => ht.next).map
    fun high => Expr.between a b high
  have hand : Stops .addition (.and : Token F) := by
    change (3 : Nat) < 6
    decide
  exact Parses.advance_bind (hlow.parses.bind (parses_expect hlast) fun _ _ => hand)

theorem found_inList (pairs : List (List (Token F) × Expr F)) (hne : pairs ≠ [])
    (h : Found (n + 1) .addition ts a) (hlist : ∀ p ∈ pairs, Found n .or p.1 p.2) :
    Found (n + 1) .comparison
      (ts ++ .inKw :: .lParen :: (joined .comma (pairs.map Prod.fst) ++ [.rParen]))
      (.inList a (pairs.map Prod.snd)) := by
  refine found_comparison h (fun _ _ => Nat.lt_succ_self 5) (Parses.peek ?_)
  exact Parses.advance_succ
    ((parses_inList pairs hne hlist _).map fun list => Expr.inList a list)

theorem found_like (pattern : String) (h : Found n .addition ts a) :
    Found n .comparison (ts ++ [.like, .strLit pattern]) (.like a pattern false) := by
  refine found_comparison h (fun _ _ => Nat.lt_succ_self 5) (Parses.peek ?_)
  exact Parses.advance_bind ((parses_expectString pattern _).map fun s => Expr.like a s false)

theorem found_notLike (pattern : String) (h : Found n .addition ts a) :
    Found n .comparison (ts ++ [.not, .like, .strLit pattern]) (.like a pattern true) := by
  refine found_comparison h (fun _ _ => Nat.lt_succ_self 5) (Parses.peek ?_)
  refine Parses.advance_bind (Parses.peek ?_)
  exact Parses.advance_bind ((parses_expectString pattern _).map fun s => Expr.like a s true)

theorem found_literal (lit : Literal F) (t : Token F) (h : literalToken lit = some t) :
    Found n .primary [t] (.literal lit) := by
  cases lit with
  | bool b => cases b <;> cases h <;> exact Parses.peek (Parses.advance_bind (Parses.pure _ _))
  | int i | float f | str s | null =>
    cases h
    exact Parses.peek (Parses.advance_bind (Parses.pure _ _))
  | intervalNs i => cases h

theorem found_interval (s : String) (ns : Int64) (h : parseInterval (F := F) s = .ok ns) :
    Found n .primary [(.interval : Token F), .strLit s] (.interval ns) := by
  refine Parses.peek (Parses.advance_bind ?_)
  have hns : Parses n (LibParse.ofResult (parseInterval s) : P F Int64) (Stops .primary) [] ns := by
    rw [h]
    exact Parses.pure ns _
  exact (parses_expectString s fun _ => True).bind (hns.map Expr.interval) fun _ _ => trivial

theorem found_column (name : String) :
    Found n .primary [(.ident name : Token F)] (.column none name) := by
  refine Parses.peek (Parses.advance_bind (Parses.peek_nil fun t ht => ?_))
  have hdot : t ≠ .dot := by
    rintro rfl
    exact absurd ht (Nat.lt_irrefl 9)
  have hparen : t ≠ .lParen := by
    rintro rfl
    exact absurd ht (Nat.lt_irrefl 9)
  rw [if_neg hdot, if_neg hparen]
  exact Parses.pure _ _

theorem found_qualified (table name : String) :
    Found n .primary [(.ident table : Token F), .dot, .ident name] (.column (some table) name) := by
  refine Parses.peek (Parses.advance_bind (Parses.peek ?_))
  exact Parses.advance_bind
    ((parses_expectIdent name _).map fun col => Expr.column (some table) col)

theorem found_call (name : String) (pairs : List (List (Token F) × Expr F))
    (hreads : ∀ p ∈ pairs, Reads .argument p.1 p.2)
    (h : ∀ p ∈ pairs, Found n .argument p.1 p.2) :
    Found (n + 1) .primary
      (.ident name :: .lParen :: (joined .comma (pairs.map Prod.fst) ++ [.rParen]))
      (.function (String.ofList (name.toList.map Char.toLower)) (pairs.map Prod.snd)) := by
  refine Parses.peek (Parses.advance_bind (Parses.peek ?_))
  exact Parses.advance_succ ((parses_args pairs hreads h).bind
    (parses_expect (Parses.pure _ _)) fun _ _ => rfl)

theorem found_paren (h : Found n .or ts a) :
    Found (n + 1) .primary (.lParen :: (ts ++ [.rParen])) a := by
  refine Parses.peek (Parses.advance_succ ?_)
  exact (parses_parseExpr .or (Or.inl rfl) h).bind (parses_expect (Parses.pure _ _))
    fun _ _ => Nat.zero_lt_two

end Constructs

theorem Reads.found {l : Level} {ts : List (Token F)} {e : Expr F} (h : Reads l ts e) (n : Nat) :
    Found n l ts e := by
  induction h generalizing n with
  | @lift l ts e h ih =>
    obtain ⟨t, us, hts, ht⟩ := h.head
    exact Found.lift l ⟨t, us, hts, prefixOp_start l t ht⟩ (ih n)
  | star => exact found_star n
  | binary l hop hleft hright ihl ihr => exact Found.binary l hop (ihl n) (ihr n)
  | unary l hop h ih => exact Found.unary l hop (ih n)
  | compare hop hleft hright ihl ihr => exact found_compare hop (ihl n) (ihr n)
  | isNull h ih => exact found_isNull (ih n)
  | isNotNull h ih => exact found_isNotNull (ih n)
  | between h hlow hhigh ih ihlow ihhigh => exact found_between (ih n) (ihlow n) (ihhigh n)
  | inList pairs hne h hlist ih ihlist =>
    -- lists, calls and parentheses recurse with one unit of fuel less
    cases n with
    | zero => exact Parses.zero _ _ _ _
    | succ m => exact found_inList pairs hne (ih (m + 1)) fun p hp => ihlist p hp m
  | like pattern h ih => exact found_like pattern (ih n)
  | notLike pattern h ih => exact found_notLike pattern (ih n)
  | literal h => exact found_literal _ _ h
  | interval h => exact found_interval _ _ h
  | column name => exact found_column name
  | qualified table name => exact found_qualified table name
  | call name pairs h ih =>
    cases n with
    | zero => exact Parses.zero _ _ _ _
    | succ m => exact found_call name pairs h fun p hp => ih p hp m
  | paren h ih =>
    cases n with
    | zero => exact Parses.zero _ _ _ _
    | succ m => exact found_paren (ih m)

end Complete

end Tokens

end InfraLens.Query
