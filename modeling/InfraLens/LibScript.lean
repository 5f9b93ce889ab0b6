import InfraLens.LibParse

/-! Parsers that reach their tokens only by looking at the current one and passing over it. Such a
parser is the run of a tree, its script, and the script runs as well over a list of tokens with an
index, where every access is checked. A rule for each way of building a parser says when it needs
no more fuel than there are tokens before the last one. -/
namespace InfraLens.LibParse
open LibExcept
variable {τ ε α β : Type}

/-- What a parser does: each look at a token is a branching. -/
inductive Script (τ ε α : Type) where
  | done (a : α)
  | stop (f : Failure ε)
  | peek (k : τ → Script τ ε α)
  | advance (k : τ → Script τ ε α)

namespace Script

def run : Script τ ε α → Parser τ ε α
  | done a => pure a
  | stop f => fun _ => .error f
  | peek k => LibParse.peek >>= fun t => (k t).run
  | advance k => LibParse.advance >>= fun t => (k t).run

def bind (s : Script τ ε α) (k : α → Script τ ε β) : Script τ ε β :=
  match s with
  | done a => k a
  | stop f => stop f
  | peek l => peek fun t => (l t).bind k
  | advance l => advance fun t => (l t).bind k

theorem run_bind (s : Script τ ε α) (k : α → Script τ ε β) :
    (s.bind k).run = s.run >>= fun a => (k a).run := by
  induction s with
  | done a => rfl
  | stop f => rfl
  | peek l ih =>
    rw [bind, run, run, bind_assoc]
    exact congrArg _ (funext ih)
  | advance l ih =>
    rw [bind, run, run, bind_assoc]
    exact congrArg _ (funext ih)

end Script

/-! ### Tokens behind an index -/

/-- How a run over an index ends. -/
inductive Indexed (ε α : Type) where
  | ok (a : α) (pos : Nat)
  | failed (f : Failure ε)
  | outOfBounds

/-- The index after the one given; it stays at the last token. -/
def nextPos (tokens : List τ) (pos : Nat) : Nat :=
  if pos + 1 < tokens.length then pos + 1 else pos

def Script.runAt (tokens : List τ) : Script τ ε α → Nat → Indexed ε α
  | done a, pos => .ok a pos
  | stop f, _ => .failed f
  | peek k, pos => tokens[pos]?.elim .outOfBounds fun t => (k t).runAt tokens pos
  | advance k, pos =>
    tokens[pos]?.elim .outOfBounds fun t => (k t).runAt tokens (nextPos tokens pos)

/-- The result of a cursor, told with the index it stands for. -/
def indexed (tokens : List τ) : Except (Failure ε) (α × Cursor τ) → Indexed ε α
  | .ok (a, c) => .ok a (tokens.length - c.size)
  | .error f => .failed f

namespace Cursor

/-- The cursor is the part of the tokens that starts at the index. -/
def At (tokens : List τ) (pos : Nat) (c : Cursor τ) : Prop := tokens.drop pos = c.cur :: c.rest

theorem At.getElem {tokens : List τ} {pos : Nat} {c : Cursor τ} (h : At tokens pos c) :
    tokens[pos]? = some c.cur := by
  rw [← List.head?_drop, h]
  rfl

theorem At.length {tokens : List τ} {pos : Nat} {c : Cursor τ} (h : At tokens pos c) :
    tokens.length = pos + c.size := by
  have hlength := congrArg List.length h
  rw [List.length_drop, List.length_cons] at hlength
  rw [size]
  omega

theorem At.advance {tokens : List τ} {pos : Nat} {c : Cursor τ} (h : At tokens pos c) :
    At tokens (nextPos tokens pos) c.advance := by
  have hlength := h.length
  rw [size] at hlength
  obtain ⟨cur, rest⟩ := c
  cases rest with
  | nil =>
    rw [nextPos, if_neg (by simp at hlength; omega)]
    exact h
  | cons t ts =>
    rw [nextPos, if_pos (by simp at hlength; omega)]
    have hdrop := congrArg List.tail h
    rw [List.tail_drop] at hdrop
    exact hdrop

end Cursor

/-- Over an index inside the tokens every access is inside them, and the result is the cursor's. -/
theorem Script.runAt_eq (tokens : List τ) (s : Script τ ε α) (pos : Nat) (c : Cursor τ)
    (h : c.At tokens pos) : s.runAt tokens pos = indexed tokens (s.run.run c) := by
  induction s generalizing pos c with
  | done a =>
    have hlength := h.length
    have hpos : tokens.length - c.size = pos := by omega
    exact (congrArg (Indexed.ok a) hpos).symm
  | stop f => rfl
  | peek k ih =>
    rw [runAt, h.getElem]
    exact ih c.cur pos c h
  | advance k ih =>
    rw [runAt, h.getElem]
    exact ih c.cur _ c.advance h.advance

/-- The parser is the run of a script. -/
def Scripted (p : Parser τ ε α) : Prop := ∃ s : Script τ ε α, s.run = p

namespace Scripted

theorem pure (a : α) : Scripted (Pure.pure a : Parser τ ε α) := ⟨.done a, rfl⟩

theorem fail (e : ε) : Scripted (LibParse.fail e : Parser τ ε α) := ⟨.stop (.error e), rfl⟩

theorem outOfFuel : Scripted (LibParse.outOfFuel : Parser τ ε α) := ⟨.stop .outOfFuel, rfl⟩

theorem bind {p : Parser τ ε α} {k : α → Parser τ ε β} (hp : Scripted p)
    (hk : ∀ a, Scripted (k a)) : Scripted (p >>= k) := by
  obtain ⟨s, rfl⟩ := hp
  choose l hl using hk
  refine ⟨s.bind l, ?_⟩
  rw [Script.run_bind]
  exact congrArg _ (funext hl)

theorem peek : Scripted (LibParse.peek : Parser τ ε τ) := ⟨.peek .done, rfl⟩

theorem advance : Scripted (LibParse.advance : Parser τ ε τ) := ⟨.advance .done, rfl⟩

end Scripted

/-! ### Enough fuel -/

namespace Cursor

def ending (last : τ) (ts : List τ) : Cursor τ := (⟨last, []⟩ : Cursor τ).before ts

theorem advance_ending (last : τ) (ts : List τ) :
    ∃ us, us <:+ ts ∧ (ending last ts).advance = ending last us ∧
      ((ending last ts).cur ≠ last → us.length + 1 = ts.length) := by
  cases ts with
  | nil => exact ⟨[], List.suffix_rfl, rfl, fun hne => absurd rfl hne⟩
  | cons t ts => exact ⟨ts, List.suffix_cons t ts, advance_push t _, fun _ => rfl⟩

theorem at_ending (last : τ) (ts : List τ) : At (ts ++ [last]) 0 (ending last ts) := by
  obtain ⟨t, us, htokens, hcursor⟩ := before_toList ts last
  rw [ending, ← hcursor]
  exact htokens

end Cursor

/-- The run of a parser ended, with an error or further on in the tokens, and so did another. -/
def Settled (last : τ) (ts : List τ) (x y : Except (Failure ε) (α × Cursor τ)) : Prop :=
  y = x ∧ ((∃ e, x = .error (.error e)) ∨
    ∃ a us, us <:+ ts ∧ x = .ok (a, Cursor.ending last us))

theorem Settled.error (last : τ) (ts : List τ) (e : ε) :
    Settled (α := α) last ts (.error (.error e)) (.error (.error e)) :=
  ⟨rfl, Or.inl ⟨e, rfl⟩⟩

theorem Settled.ok {last : τ} {ts us : List τ} (a : α) (h : us <:+ ts) :
    Settled (ε := ε) last ts (.ok (a, Cursor.ending last us)) (.ok (a, Cursor.ending last us)) :=
  ⟨rfl, Or.inr ⟨a, us, h, rfl⟩⟩

theorem Settled.further {last : τ} {ts us : List τ} {x y : Except (Failure ε) (α × Cursor τ)}
    (h : Settled last us x y) (hus : us <:+ ts) : Settled last ts x y := by
  obtain ⟨hsame, hends⟩ := h
  subst hsame
  cases hends with
  | inl herror => exact ⟨rfl, Or.inl herror⟩
  | inr hok =>
    obtain ⟨a, vs, hvs, hx⟩ := hok
    exact ⟨rfl, Or.inr ⟨a, vs, hvs.trans hus, hx⟩⟩

/-- With fewer than `n` tokens, the first of them `t` and the last one only at the end, `p` and `q`
end alike. The two are one parser with different fuel. -/
structure SteadyAt (last t : τ) (n : Nat) (p q : Parser τ ε α) : Prop where
  scripted : Scripted p
  settled : ∀ ts, last ∉ ts → (Cursor.ending last ts).cur = t → ts.length + 1 < n →
    Settled last ts (p.run (Cursor.ending last ts)) (q.run (Cursor.ending last ts))

def Steady (last : τ) (n : Nat) (p q : Parser τ ε α) : Prop := ∀ t, SteadyAt last t n p q

section Rules
variable {last t : τ} {n : Nat}

theorem SteadyAt.mono {p q : Parser τ ε α} {m : Nat} (h : SteadyAt last t n p q) (hle : m ≤ n) :
    SteadyAt last t m p q :=
  ⟨h.scripted, fun ts hts hcur hlt => h.settled ts hts hcur (Nat.lt_of_lt_of_le hlt hle)⟩

theorem Steady.mono {p q : Parser τ ε α} {m : Nat} (h : Steady last n p q) (hle : m ≤ n) :
    Steady last m p q :=
  fun t => (h t).mono hle

theorem Steady.outOfFuel (hn : n ≤ 1) (q : Parser τ ε α) :
    Steady last n LibParse.outOfFuel q := by
  intro t
  refine ⟨Scripted.outOfFuel, ?_⟩
  intro ts _ _ hlt
  omega

theorem SteadyAt.pure (a : α) : SteadyAt last t n (Pure.pure a : Parser τ ε α) (Pure.pure a) :=
  ⟨Scripted.pure a, fun _ _ _ _ => Settled.ok a List.suffix_rfl⟩

theorem Steady.pure (a : α) : Steady last n (Pure.pure a : Parser τ ε α) (Pure.pure a) :=
  fun _ => SteadyAt.pure a

theorem SteadyAt.fail (e : ε) :
    SteadyAt last t n (LibParse.fail e : Parser τ ε α) (LibParse.fail e) :=
  ⟨Scripted.fail e, fun ts _ _ _ => Settled.error last ts e⟩

theorem Steady.ofResult (r : Except ε α) :
    Steady last n (LibParse.ofResult r : Parser τ ε α) (LibParse.ofResult r) := by
  intro t
  cases r with
  | ok a => exact SteadyAt.pure a
  | error e => exact SteadyAt.fail e

theorem SteadyAt.bind {p q : Parser τ ε α} {k l : α → Parser τ ε β} (hp : SteadyAt last t n p q)
    (hk : ∀ a, Steady last n (k a) (l a)) : SteadyAt last t n (p >>= k) (q >>= l) := by
  refine ⟨hp.scripted.bind fun a => (hk a t).scripted, ?_⟩
  intro ts hts hcur hlt
  obtain ⟨hsame, hends⟩ := hp.settled ts hts hcur hlt
  rw [StateT.run_bind, StateT.run_bind, hsame]
  cases hends with
  | inl herror =>
    obtain ⟨e, hrun⟩ := herror
    rw [hrun]
    exact Settled.error last ts e
  | inr hok =>
    obtain ⟨a, us, hus, hrun⟩ := hok
    have hlength := hus.length_le
    rw [hrun]
    have hrest := (hk a _).settled us (fun hmem => hts (hus.mem hmem)) rfl (by omega)
    exact hrest.further hus

theorem Steady.bind {p q : Parser τ ε α} {k l : α → Parser τ ε β} (hp : Steady last n p q)
    (hk : ∀ a, Steady last n (k a) (l a)) : Steady last n (p >>= k) (q >>= l) :=
  fun t => (hp t).bind hk

theorem Steady.peek {k l : τ → Parser τ ε β} (h : ∀ t, SteadyAt last t n (k t) (l t)) :
    Steady last n (LibParse.peek >>= k) (LibParse.peek >>= l) := by
  intro t
  refine ⟨Scripted.peek.bind fun u => (h u).scripted, ?_⟩
  intro ts hts _ hlt
  exact (h _).settled ts hts rfl hlt

theorem Steady.advance : Steady last n (LibParse.advance : Parser τ ε τ) LibParse.advance := by
  intro t
  refine ⟨Scripted.advance, ?_⟩
  intro ts _ _ _
  obtain ⟨us, hus, hadvance, _⟩ := Cursor.advance_ending last ts
  rw [run_advance, hadvance]
  exact Settled.ok _ hus

theorem SteadyAt.advance_pred {k l : τ → Parser τ ε β} (hne : t ≠ last)
    (h : ∀ u, Steady last (n - 1) (k u) (l u)) :
    SteadyAt last t n (LibParse.advance >>= k) (LibParse.advance >>= l) := by
  refine ⟨Scripted.advance.bind fun u => (h u t).scripted, ?_⟩
  intro ts hts hcur hlt
  obtain ⟨us, hus, hadvance, hlength⟩ := Cursor.advance_ending last ts
  have hshort := hlength fun hlast => hne (hcur.symm.trans hlast)
  rw [StateT.run_bind, StateT.run_bind, run_advance, hadvance]
  have hrest := (h (Cursor.ending last ts).cur _).settled us (fun hmem => hts (hus.mem hmem)) rfl
    (by omega)
  exact hrest.further hus

/-! ### Ways of building a parser -/

section Tokens
variable [DecidableEq τ]

theorem Steady.branch (sep : τ) {p p' q q' : Parser τ ε β} (hp : SteadyAt last sep n p p')
    (hq : Steady last n q q') :
    Steady last n (LibParse.peek >>= fun u => if u = sep then p else q)
      (LibParse.peek >>= fun u => if u = sep then p' else q') := by
  refine Steady.peek fun t => ?_
  by_cases ht : t = sep
  · subst ht
    rw [if_pos rfl, if_pos rfl]
    exact hp
  · rw [if_neg ht, if_neg ht]
    exact hq t

theorem Steady.expect (expected : τ → τ → ε) (sep : τ) :
    Steady last n (LibParse.expect expected sep) (LibParse.expect expected sep) := by
  refine Steady.peek fun t => ?_
  by_cases ht : t = sep
  · rw [if_pos ht]
    exact (Steady.advance t).bind fun _ => Steady.pure ()
  · rw [if_neg ht]
    exact SteadyAt.fail _

theorem Steady.eatOptional (sep : τ) :
    Steady last n (LibParse.eatOptional sep : Parser τ ε Bool) (LibParse.eatOptional sep) :=
  Steady.branch sep ((Steady.advance sep).bind fun _ => Steady.pure true) (Steady.pure false)

theorem Steady.optionally (sep : τ) {p q : Parser τ ε α} (h : Steady last n p q) :
    Steady last n (LibParse.optionally sep p) (LibParse.optionally sep q) := by
  refine Steady.branch sep ?_ (Steady.pure none)
  exact (Steady.advance sep).bind fun _ => h.bind fun a => Steady.pure (some a)

theorem Steady.separatedLoop {sep : τ} (hsep : sep ≠ last) {item item' : Parser τ ε α} {k k' : Nat}
    (hk : n ≤ k + 1) (hle : k ≤ k') (h : Steady last n item item') (items : List α) :
    Steady last n (LibParse.separatedLoop sep item k items)
      (LibParse.separatedLoop sep item' k' items) := by
  induction k generalizing n k' items with
  | zero => exact Steady.outOfFuel hk _
  | succ k ih =>
    obtain ⟨k', rfl⟩ := Nat.exists_eq_add_one_of_ne_zero (Nat.ne_zero_of_lt hle)
    refine Steady.branch sep (SteadyAt.advance_pred hsep fun _ => ?_) (Steady.pure items)
    have hitem := h.mono (Nat.sub_le n 1)
    exact hitem.bind fun a => ih (by omega) (Nat.le_of_succ_le_succ hle) hitem _

theorem Steady.separated {sep : τ} (hsep : sep ≠ last) {item item' : Parser τ ε α} {k k' : Nat}
    (hk : n ≤ k + 1) (hle : k ≤ k') (h : Steady last n item item') :
    Steady last n (LibParse.separated sep item k) (LibParse.separated sep item' k') :=
  h.bind fun a => Steady.separatedLoop hsep hk hle h [a]

end Tokens

theorem ne_last_of_op {γ : Type} {op : τ → Option γ} {f : γ} (hop : op last = none)
    (ht : op t = some f) : t ≠ last := by
  intro hlast
  rw [hlast, hop] at ht
  cases ht

theorem Steady.prefixed {op : τ → Option (α → α)} (hop : op last = none)
    {item item' : Parser τ ε α} {k k' : Nat} (hk : n ≤ k + 1) (hle : k ≤ k')
    (h : Steady last n item item') :
    Steady last n (LibParse.prefixed op item k) (LibParse.prefixed op item' k') := by
  induction k generalizing n k' with
  | zero => exact Steady.outOfFuel hk _
  | succ k ih =>
    obtain ⟨k', rfl⟩ := Nat.exists_eq_add_one_of_ne_zero (Nat.ne_zero_of_lt hle)
    refine Steady.peek fun t => ?_
    cases ht : op t with
    | none => exact h t
    | some f =>
      refine SteadyAt.advance_pred (ne_last_of_op hop ht) fun _ => ?_
      have hrest := ih (by omega) (Nat.le_of_succ_le_succ hle) (h.mono (Nat.sub_le n 1))
      exact hrest.bind fun a => Steady.pure (f a)

theorem Steady.chainLoop {op : τ → Option (α → α → α)} (hop : op last = none)
    {item item' : Parser τ ε α} {k k' : Nat} (hk : n ≤ k + 1) (hle : k ≤ k')
    (h : Steady last n item item') (left : α) :
    Steady last n (LibParse.chainLoop op item k left) (LibParse.chainLoop op item' k' left) := by
  induction k generalizing n k' left with
  | zero => exact Steady.outOfFuel hk _
  | succ k ih =>
    obtain ⟨k', rfl⟩ := Nat.exists_eq_add_one_of_ne_zero (Nat.ne_zero_of_lt hle)
    refine Steady.peek fun t => ?_
    cases ht : op t with
    | none => exact SteadyAt.pure left
    | some f =>
      refine SteadyAt.advance_pred (ne_last_of_op hop ht) fun _ => ?_
      have hitem := h.mono (Nat.sub_le n 1)
      exact hitem.bind fun right => ih (by omega) (Nat.le_of_succ_le_succ hle) hitem _

theorem Steady.chain {op : τ → Option (α → α → α)} (hop : op last = none)
    {item item' : Parser τ ε α} {k k' : Nat} (hk : n ≤ k + 1) (hle : k ≤ k')
    (h : Steady last n item item') :
    Steady last n (LibParse.chain op item k) (LibParse.chain op item' k') :=
  h.bind fun left => Steady.chainLoop hop hk hle h left

/-! ### The end of the tokens -/

/-- Where it succeeds, the parser has read all tokens before the last one. -/
def ReadsAll (last : τ) (n : Nat) (p : Parser τ ε α) : Prop :=
  ∀ ts, last ∉ ts → ts.length + 1 < n →
    ∀ a c, p.run (Cursor.ending last ts) = .ok (a, c) → c = Cursor.ending last []

theorem ReadsAll.fail (e : ε) : ReadsAll last n (LibParse.fail e : Parser τ ε α) := by
  intro ts _ _ a c h
  cases h

theorem ReadsAll.peek {k : τ → Parser τ ε β} (h : ∀ t, ReadsAll last n (k t)) :
    ReadsAll last n (LibParse.peek >>= k) :=
  fun ts hts hlt a c hrun => h _ ts hts hlt a c hrun

theorem ReadsAll.bind {p q : Parser τ ε α} {k : α → Parser τ ε β} (hp : Steady last n p q)
    (hk : ∀ a, ReadsAll last n (k a)) : ReadsAll last n (p >>= k) := by
  intro ts hts hlt b c h
  obtain ⟨_, hends⟩ := (hp _).settled ts hts rfl hlt
  rw [StateT.run_bind] at h
  cases hends with
  | inl herror =>
    obtain ⟨e, hrun⟩ := herror
    rw [hrun] at h
    cases h
  | inr hok =>
    obtain ⟨a, us, hus, hrun⟩ := hok
    have hlength := hus.length_le
    rw [hrun] at h
    exact hk a us (fun hmem => hts (hus.mem hmem)) (by omega) b c h

theorem ReadsAll.expect [DecidableEq τ] (expected : τ → τ → ε) (b : β) :
    ReadsAll last n (LibParse.expect expected last >>= fun _ => Pure.pure b) := by
  intro ts hts hlt a c h
  simp only [LibParse.expect, StateT.run_bind, run_peek, ok_bind] at h
  cases ts with
  | nil =>
    have hcur : (Cursor.ending last []).cur = last := rfl
    rw [if_pos hcur] at h
    cases h
    rfl
  | cons t ts =>
    have hne : (Cursor.ending last (t :: ts)).cur ≠ last := by
      intro hlast
      exact hts (hlast ▸ List.mem_cons_self)
    rw [if_neg hne] at h
    cases h

end Rules

end InfraLens.LibParse
