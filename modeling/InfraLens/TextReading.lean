import InfraLens.Lexing
import InfraLens.StatementReading

/-! Readings of texts: what is lexed to tokens that read as an expression, a list or a clause, and
how such texts are put together. -/
namespace InfraLens.Query
open LibText
open LibParse (joined)
section Texts
variable {F : Type} [FloatText F]

/-- A text that may also come right after a word, a number or a string. -/
structure Follows (follow : List UInt8 → Prop) (w : List Char) (ts : List (Token F)) : Prop where
  lexes : Lexes follow w ts
  delimits : ∀ rest, follow rest → Delimits (utf8 w ++ rest)

theorem Follows.nil : Follows Delimits [] ([] : List (Token F)) :=
  ⟨Lexes.nil _, fun _ h => h⟩

theorem Lexes.followed {f : List UInt8 → Prop} {u v : List Char} {ts us : List (Token F)}
    (hu : Lexes Delimits u ts) (hv : Follows f v us) : Lexes f (u ++ v) (ts ++ us) :=
  hu.append hv.lexes hv.delimits

theorem Follows.followed {f : List UInt8 → Prop} {u v : List Char} {ts us : List (Token F)}
    (hu : Follows Delimits u ts) (hv : Follows f v us) : Follows f (u ++ v) (ts ++ us) := by
  refine ⟨hu.lexes.followed hv, fun rest hrest => ?_⟩
  rw [utf8_append, List.append_assoc]
  exact hu.delimits _ (hv.delimits rest hrest)

theorem Follows.before {f : List UInt8 → Prop} {u v : List Char} {ts us : List (Token F)}
    (hu : Follows Anything u ts) (hv : Lexes f v us) : Follows f (u ++ v) (ts ++ us) := by
  refine ⟨hu.lexes.append hv fun _ _ => trivial, fun rest _ => ?_⟩
  rw [utf8_append, List.append_assoc]
  exact hu.delimits _ trivial

theorem Lexes.before {f : List UInt8 → Prop} {u v : List Char} {ts us : List (Token F)}
    (hu : Lexes Anything u ts) (hv : Lexes f v us) : Lexes f (u ++ v) (ts ++ us) :=
  hu.append hv fun _ _ => trivial

theorem Lexes.spaced {f : List UInt8 → Prop} {w : List Char} {ts : List (Token F)}
    (h : Lexes f (' ' :: w) ts) : Follows f (' ' :: w) ts :=
  ⟨h, fun _ _ => ⟨by decide, by decide, by decide⟩⟩

theorem lexes_keyword (word : List Char) (t : Token F) (h : isWord word = true)
    (ht : wordToken word = t) : Lexes Delimits word [t] := by
  have hword := lexes_word (F := F) word h
  rwa [ht] at hword

theorem follows_word (word : List Char) (t : Token F) (h : isWord word = true)
    (ht : wordToken word = t) : Follows Delimits (' ' :: word) [t] :=
  (lexes_keyword word t h ht).after_space.spaced

theorem follows_keyword (word : List Char) (t : Token F) (h : isWord word = true)
    (ht : wordToken word = t) : Follows Anything (' ' :: (word ++ [' '])) [t] :=
  (follows_word word t h ht).lexes.before_space.spaced

theorem follows_by (word : List Char) (t : Token F) (h : isWord word = true)
    (ht : wordToken word = t) :
    Follows Anything ((' ' :: word) ++ (' ' :: ("BY".toList ++ [' ']))) [t, .byKw] :=
  (follows_word word t h ht).followed (follows_keyword "BY".toList .byKw rfl rfl)

theorem follows_operator (c : Char) (cs : List Char) (t : Token F)
    (hc : c.toNat < 128 ∧ c.isWhitespace = false ∧ (c = '-' → cs = []))
    (ht : ∀ len r, nextToken len (asciiByte c) (utf8 cs ++ 32 :: r) = .ok (t, 32 :: r)) :
    Follows Anything (' ' :: (c :: cs ++ [' '])) [t] :=
  (lexes_operator c cs t hc ht).spaced

theorem follows_punctuation (c : Char) (t : Token F)
    (hc : c.toNat < 128 ∧ c.isWhitespace = false ∧ c ≠ '-') (h : punctuation c = some t)
    (hd : isIdentChar c = false ∧ c ≠ '.' ∧ c ≠ '\'') : Follows Anything [c] [t] := by
  refine ⟨lexes_punctuation c t hc h, fun rest _ => ?_⟩
  rw [utf8_ascii [c] fun d hd => (List.mem_singleton.mp hd) ▸ hc.1]
  change isIdentByte (asciiByte c) = false ∧ _
  rw [isIdentByte, isDigitByte, byteChar_asciiByte c hc.1]
  exact hd

theorem follows_lParen : Follows Anything ['('] [(.lParen : Token F)] :=
  follows_punctuation '(' _ (by decide) rfl (by decide)

theorem follows_rParen : Follows Anything [')'] [(.rParen : Token F)] :=
  follows_punctuation ')' _ (by decide) rfl (by decide)

theorem follows_comma : Follows Anything [',', ' '] [(.comma : Token F)] := by
  have hcomma := follows_punctuation ',' (.comma : Token F) (by decide) rfl (by decide)
  have hpair := hcomma.before lexes_space
  rwa [List.append_nil] at hpair

/-! ### Texts that are read -/

/-- A text whose tokens stand in a relation to a value. -/
def Text {α : Type} (R : List (Token F) → α → Prop) (w : List Char) : Prop :=
  ∃ ts a, Lexes Delimits w ts ∧ R ts a

def Texts {α : Type} (R : List (Token F) → α → Prop) (w : List Char) : Prop :=
  ∃ pairs : List (List (Token F) × α), pairs ≠ [] ∧ (∀ p ∈ pairs, R p.1 p.2) ∧
    Lexes Delimits w (joined .comma (pairs.map Prod.fst))

theorem Texts.of_items {α : Type} {R : List (Token F) → α → Prop} {w : List Char} (h : Text R w)
    (us : List (List Char)) (hus : ∀ u ∈ us, ∃ v, u = [',', ' '] ++ v ∧ Text R v) :
    Texts R (w ++ us.flatten) := by
  obtain ⟨ts, a, hlex, hread⟩ := h
  have hrest : ∃ pairs : List (List (Token F) × α), (∀ p ∈ pairs, R p.1 p.2) ∧
      Follows Delimits us.flatten ((pairs.map Prod.fst).flatMap fun us => .comma :: us) := by
    induction us with
    | nil => exact ⟨[], by simp, Follows.nil⟩
    | cons u us ih =>
      obtain ⟨v, rfl, us', b, hlexv, hreadv⟩ := hus u List.mem_cons_self
      obtain ⟨pairs, hpairs, hfollows⟩ := ih fun x hx => hus x (List.mem_cons_of_mem _ hx)
      refine ⟨(us', b) :: pairs, ?_, ?_⟩
      · rw [List.forall_mem_cons]
        exact ⟨hreadv, hpairs⟩
      · exact (follows_comma.before hlexv).followed hfollows
  obtain ⟨pairs, hpairs, hfollows⟩ := hrest
  refine ⟨(ts, a) :: pairs, by simp, ?_, hlex.followed hfollows⟩
  rw [List.forall_mem_cons]
  exact ⟨hread, hpairs⟩

/-! ### Texts of clauses, which may be empty -/

def ClauseText {α : Type} (kw : Token F) (R : List (Token F) → α → Prop) (w : List Char) : Prop :=
  ∃ o : Option (List (Token F) × α), (∀ p ∈ o, R p.1 p.2) ∧ Follows Delimits w (clauseTokens kw o)

def ListClauseText {α : Type} (kw : Token F) (R : List (Token F) → α → Prop) (w : List Char) :
    Prop :=
  ∃ pairs : List (List (Token F) × α), (∀ p ∈ pairs, R p.1 p.2) ∧
    Follows Delimits w (listTokens kw pairs)

def CountText (kw : Token F) (w : List Char) : Prop :=
  ∃ o : Option UInt64, Follows Delimits w (countTokens kw o)

theorem ClauseText.nil {α : Type} (kw : Token F) (R : List (Token F) → α → Prop) :
    ClauseText kw R [] :=
  ⟨none, by simp, Follows.nil⟩

theorem ListClauseText.nil {α : Type} (kw : Token F) (R : List (Token F) → α → Prop) :
    ListClauseText kw R [] :=
  ⟨[], by simp, Follows.nil⟩

theorem CountText.nil (kw : Token F) : CountText kw [] := ⟨none, Follows.nil⟩

theorem Text.clause {α : Type} {kw : Token F} {R : List (Token F) → α → Prop} {u w : List Char}
    (hu : Follows Anything u [kw]) (h : Text R w) : ClauseText kw R (u ++ w) := by
  obtain ⟨ts, a, hlex, hread⟩ := h
  refine ⟨some (ts, a), ?_, hu.before hlex⟩
  rintro p ⟨⟩
  exact hread

theorem Texts.clause {α : Type} {kw : Token F} {R : List (Token F) → α → Prop} {u w : List Char}
    (hu : Follows Anything u [kw, .byKw]) (h : Texts R w) : ListClauseText kw R (u ++ w) := by
  obtain ⟨pairs, hne, hpairs, hlex⟩ := h
  obtain ⟨p, ps, rfl⟩ := List.exists_cons_of_ne_nil hne
  exact ⟨p :: ps, hpairs, hu.before hlex⟩

theorem CountText.of_integer {kw : Token F} {u ds : List Char} {i : Int64}
    (hu : Follows Anything u [kw]) (hds : ∀ c ∈ ds, c.isDigit = true) (hi : parseI64 ds = some i) :
    CountText kw (u ++ ds) := by
  refine ⟨some i.toUInt64, ?_⟩
  have hcount := hu.before (lexes_integer (F := F) ds i hds hi)
  rwa [← Int64.toInt64_toUInt64 i] at hcount

section Expressions
variable [Alphabetic]

theorem Text.lift (l : Level) {w : List Char} (h : Text (F := F) (Reads l.next) w) :
    Text (F := F) (Reads l) w := by
  obtain ⟨ts, e, hlex, hread⟩ := h
  exact ⟨ts, e, hlex, hread.lift l⟩

theorem Text.chain (l : Level) {w : List Char} (h : Text (F := F) (Reads l) w)
    (us : List (List Char))
    (hus : ∀ u ∈ us, ∃ sep v, u = sep ++ v ∧
      (∃ t f, chainOp l t = some f ∧ Follows (F := F) Anything sep [t]) ∧
        Text (F := F) (Reads l.next) v) :
    Text (F := F) (Reads l) (w ++ us.flatten) := by
  induction us generalizing w with
  | nil =>
    rw [List.flatten_nil, List.append_nil]
    exact h
  | cons u us ih =>
    obtain ⟨sep, v, rfl, ⟨t, f, hop, hsep⟩, vs, b, hlexv, hreadv⟩ := hus u List.mem_cons_self
    obtain ⟨ts, a, hlex, hread⟩ := h
    rw [List.flatten_cons, ← List.append_assoc]
    refine ih ⟨ts ++ t :: vs, f a b, ?_, Reads.binary l hop hread hreadv⟩
      fun x hx => hus x (List.mem_cons_of_mem _ hx)
    exact hlex.followed (hsep.before hlexv)

end Expressions

end Texts

end InfraLens.Query
