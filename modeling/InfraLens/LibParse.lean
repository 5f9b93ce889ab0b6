import Mathlib.Data.List.Basic
import InfraLens.LibExcept

/-! Recursive-descent parsers over a list of tokens with a position that never leaves it. Loops and
recursions are given fuel; running out of it is a failure of its own. A rule for each way of
building a parser says which tokens it reads, given what may follow them. -/
namespace InfraLens.LibParse
open LibExcept

/-- The current token and those after it. -/
structure Cursor (τ : Type) where
  cur : τ
  rest : List τ

namespace Cursor
variable {τ : Type}

/-- The last token stays current. -/
def advance (c : Cursor τ) : Cursor τ :=
  match c.rest with
  | [] => c
  | t :: ts => ⟨t, ts⟩

def push (t : τ) (c : Cursor τ) : Cursor τ := ⟨t, c.cur :: c.rest⟩

def before (ts : List τ) (c : Cursor τ) : Cursor τ := ts.foldr push c

def size (c : Cursor τ) : Nat := c.rest.length + 1

@[simp] theorem before_nil (c : Cursor τ) : c.before [] = c := rfl

@[simp] theorem before_cons (t : τ) (ts : List τ) (c : Cursor τ) :
    c.before (t :: ts) = (c.before ts).push t := rfl

@[simp] theorem before_append (ts us : List τ) (c : Cursor τ) :
    c.before (ts ++ us) = (c.before us).before ts := List.foldr_append

@[simp] theorem cur_push (t : τ) (c : Cursor τ) : (c.push t).cur = t := rfl

@[simp] theorem advance_push (t : τ) (c : Cursor τ) : (c.push t).advance = c := rfl

@[simp] theorem size_push (t : τ) (c : Cursor τ) : (c.push t).size = c.size + 1 := rfl

theorem size_before (ts : List τ) (c : Cursor τ) : (c.before ts).size = ts.length + c.size := by
  induction ts with
  | nil => simp
  | cons t ts ih =>
    rw [before_cons, size_push, ih, List.length_cons]
    omega

theorem before_toList (ts : List τ) (last : τ) :
    ∃ t us, ts ++ [last] = t :: us ∧ (⟨t, us⟩ : Cursor τ) = (⟨last, []⟩ : Cursor τ).before ts := by
  induction ts with
  | nil => exact ⟨last, [], rfl, rfl⟩
  | cons t ts ih =>
    obtain ⟨u, us, heq, hcur⟩ := ih
    refine ⟨t, ts ++ [last], rfl, ?_⟩
    rw [before_cons, ← hcur, heq]
    rfl

end Cursor

inductive Failure (ε : Type) where
  | error (e : ε)
  | outOfFuel

/-- A parser moves a position and gives a value. -/
abbrev Parser (τ ε : Type) := StateT (Cursor τ) (Except (Failure ε))

section Parsers
variable {τ ε α β : Type}

def peek : Parser τ ε τ := fun c => .ok (c.cur, c)

def advance : Parser τ ε τ := fun c => .ok (c.cur, c.advance)

def fail (e : ε) : Parser τ ε α := fun _ => .error (.error e)

def outOfFuel : Parser τ ε α := fun _ => .error .outOfFuel

def ofResult : Except ε α → Parser τ ε α
  | .ok a => pure a
  | .error e => fail e

section Tokens
variable [DecidableEq τ]

def expect (expected : τ → τ → ε) (t : τ) : Parser τ ε Unit := do
  let u ← peek
  if u = t then
    let _ ← advance
    pure ()
  else fail (expected t u)

def eatOptional (t : τ) : Parser τ ε Bool := do
  let u ← peek
  if u = t then
    let _ ← advance
    pure true
  else pure false

/-- What a leading token announces. -/
def optionally (t : τ) (p : Parser τ ε α) : Parser τ ε (Option α) := do
  let u ← peek
  if u = t then
    let _ ← advance
    let a ← p
    pure (some a)
  else pure none

def separatedLoop (sep : τ) (item : Parser τ ε α) : Nat → List α → Parser τ ε (List α)
  | 0, _ => outOfFuel
  | k + 1, items => do
    let u ← peek
    if u = sep then
      let _ ← advance
      let a ← item
      separatedLoop sep item k (items ++ [a])
    else pure items

def separated (sep : τ) (item : Parser τ ε α) (k : Nat) : Parser τ ε (List α) := do
  let a ← item
  separatedLoop sep item k [a]

end Tokens

/-- Operators before an item, applied from the inside out. -/
def prefixed (op : τ → Option (α → α)) (item : Parser τ ε α) : Nat → Parser τ ε α
  | 0 => outOfFuel
  | k + 1 => do
    let t ← peek
    match op t with
    | some f => do
      let _ ← advance
      let a ← prefixed op item k
      pure (f a)
    | none => item

def chainLoop (op : τ → Option (α → α → α)) (item : Parser τ ε α) : Nat → α → Parser τ ε α
  | 0, _ => outOfFuel
  | k + 1, left => do
    let t ← peek
    match op t with
    | some f => do
      let _ ← advance
      let right ← item
      chainLoop op item k (f left right)
    | none => pure left

/-- Items with operators between them, applied from the left. -/
def chain (op : τ → Option (α → α → α)) (item : Parser τ ε α) (k : Nat) : Parser τ ε α := do
  let left ← item
  chainLoop op item k left

end Parsers

@[simp] theorem run_peek {τ ε : Type} (c : Cursor τ) :
    (peek : Parser τ ε τ).run c = .ok (c.cur, c) := rfl

@[simp] theorem run_advance {τ ε : Type} (c : Cursor τ) :
    (advance : Parser τ ε τ).run c = .ok (c.cur, c.advance) := rfl

/-! ### What a parser reads -/

section Rules
variable {τ ε α β : Type} {n : Nat}

/-- With fuel `n` for as many tokens, `p` reads exactly `ts` where something in `follow` comes
next, and gives `a`. -/
def Parses (n : Nat) (p : Parser τ ε α) (follow : τ → Prop) (ts : List τ) (a : α) : Prop :=
  ∀ c, follow c.cur → (c.before ts).size < n → p.run (c.before ts) = .ok (a, c)

theorem Parses.mono {p : Parser τ ε α} {f g : τ → Prop} {ts : List τ} {a : α}
    (h : Parses n p g ts a) (hfollow : ∀ t, f t → g t) : Parses n p f ts a :=
  fun c hc hsize => h c (hfollow c.cur hc) hsize

theorem Parses.less {p : Parser τ ε α} {f : τ → Prop} {ts : List τ} {a : α}
    (h : Parses (n + 1) p f ts a) : Parses n p f ts a :=
  fun c hc hsize => h c hc (Nat.lt_succ_of_lt hsize)

theorem Parses.zero (p : Parser τ ε α) (f : τ → Prop) (ts : List τ) (a : α) : Parses 0 p f ts a :=
  fun _ _ hsize => absurd hsize (Nat.not_lt_zero _)

theorem Parses.pure (a : α) (f : τ → Prop) : Parses n (Pure.pure a : Parser τ ε α) f [] a :=
  fun _ _ _ => rfl

/-- One parser after the other. What follows the first is the start of what the second reads. -/
theorem Parses.bind {p : Parser τ ε α} {k : α → Parser τ ε β} {f g : τ → Prop} {ts us : List τ}
    {a : α} {b : β} (hp : Parses n p g ts a) (hk : Parses n (k a) f us b)
    (hfollow : ∀ c : Cursor τ, f c.cur → g (c.before us).cur) :
    Parses n (p >>= k) f (ts ++ us) b := by
  intro c hc hsize
  rw [Cursor.before_append] at hsize ⊢
  have hrest : (c.before us).size < n := by
    rw [Cursor.size_before] at hsize
    omega
  have hfirst := hp (c.before us) (hfollow c hc) hsize
  rw [StateT.run_bind, hfirst]
  exact hk c hc hrest

theorem Parses.map {p : Parser τ ε α} {f : τ → Prop} {ts : List τ} {a : α} (g : α → β)
    (hp : Parses n p f ts a) : Parses n (p >>= fun a => Pure.pure (g a)) f ts (g a) := by
  rw [← List.append_nil ts]
  exact hp.bind (Parses.pure (g a) f) fun _ hc => hc

theorem Parses.peek {k : τ → Parser τ ε β} {f : τ → Prop} {t : τ} {us : List τ} {b : β}
    (hk : Parses n (k t) f (t :: us) b) : Parses n (LibParse.peek >>= k) f (t :: us) b :=
  fun c hc hsize => hk c hc hsize

theorem Parses.peek_nil {k : τ → Parser τ ε β} {f : τ → Prop} {b : β}
    (hk : ∀ t, f t → Parses n (k t) f [] b) : Parses n (LibParse.peek >>= k) f [] b :=
  fun c hc hsize => hk c.cur hc c hc hsize

theorem Parses.advance_succ {k : τ → Parser τ ε β} {f : τ → Prop} {t : τ} {us : List τ} {b : β}
    (hk : Parses n (k t) f us b) : Parses (n + 1) (LibParse.advance >>= k) f (t :: us) b := by
  intro c hc hsize
  rw [Cursor.before_cons, Cursor.size_push] at hsize
  exact hk c hc (by omega)

theorem Parses.advance_bind {k : τ → Parser τ ε β} {f : τ → Prop} {t : τ} {us : List τ} {b : β}
    (hk : Parses n (k t) f us b) : Parses n (LibParse.advance >>= k) f (t :: us) b :=
  hk.advance_succ.less

section Tokens
variable [DecidableEq τ]

theorem run_expect (expected : τ → τ → ε) (t : τ) (c : Cursor τ) :
    (expect expected t).run (c.push t) = .ok ((), c) := by
  simp only [expect, StateT.run_bind, run_peek, ok_bind, Cursor.cur_push, if_true, run_advance,
    Cursor.advance_push]
  rfl

theorem Parses.expect_succ {expected : τ → τ → ε} {k : Unit → Parser τ ε β} {f : τ → Prop}
    {t : τ} {us : List τ} {b : β} (hk : Parses n (k ()) f us b) :
    Parses (n + 1) (expect expected t >>= k) f (t :: us) b := by
  intro c hc hsize
  rw [Cursor.before_cons, Cursor.size_push] at hsize
  rw [StateT.run_bind, Cursor.before_cons, run_expect]
  exact hk c hc (by omega)

theorem Parses.expect_bind {expected : τ → τ → ε} {k : Unit → Parser τ ε β} {f : τ → Prop}
    {t : τ} {us : List τ} {b : β} (hk : Parses n (k ()) f us b) :
    Parses n (expect expected t >>= k) f (t :: us) b :=
  hk.expect_succ.less

theorem Parses.peek_else {t : τ} {p q : Parser τ ε β} {f : τ → Prop} {ts : List τ} {b : β}
    (hne : ∀ c : Cursor τ, f c.cur → (c.before ts).cur ≠ t) (hq : Parses n q f ts b) :
    Parses n (LibParse.peek >>= fun u => if u = t then p else q) f ts b := by
  intro c hc hsize
  rw [StateT.run_bind, run_peek, ok_bind, if_neg (hne c hc)]
  exact hq c hc hsize

theorem Parses.eatOptional_nil (t : τ) {f : τ → Prop} (h : ∀ u, f u → u ≠ t) :
    Parses n (eatOptional t : Parser τ ε Bool) f [] false :=
  Parses.peek_else (fun c hc => h c.cur hc) (Parses.pure false f)

theorem Parses.eatOptional_one (t : τ) (f : τ → Prop) :
    Parses n (eatOptional t : Parser τ ε Bool) f [t] true := by
  refine Parses.peek ?_
  rw [if_pos rfl]
  exact Parses.advance_bind (Parses.pure true f)

theorem Parses.optionally_none (t : τ) (p : Parser τ ε α) {f : τ → Prop} (h : ∀ u, f u → u ≠ t) :
    Parses n (optionally t p) f [] none :=
  Parses.peek_else (fun c hc => h c.cur hc) (Parses.pure none f)

theorem Parses.optionally_some (t : τ) {p : Parser τ ε α} {f : τ → Prop} {ts : List τ} {a : α}
    (h : Parses n p f ts a) : Parses n (optionally t p) f (t :: ts) (some a) := by
  refine Parses.peek ?_
  rw [if_pos rfl]
  exact Parses.advance_bind (h.map some)

theorem length_le_flatMap {γ δ : Type} (f : γ → List δ) (xs : List γ)
    (h : ∀ x ∈ xs, 1 ≤ (f x).length) : xs.length ≤ (xs.flatMap f).length := by
  induction xs with
  | nil => exact Nat.le_refl _
  | cons x xs ih =>
    have hx := h x List.mem_cons_self
    have hxs := ih fun y hy => h y (List.mem_cons_of_mem _ hy)
    rw [List.flatMap_cons, List.length_append, List.length_cons]
    omega

/-- The tokens of items with a separator between them. -/
def joined (sep : τ) : List (List τ) → List τ
  | [] => []
  | ts :: rest => ts ++ rest.flatMap fun us => sep :: us

omit [DecidableEq τ] in
theorem length_joined_le {γ : Type} (sep : τ) (f g : γ → List τ) (xs : List γ)
    (h : ∀ x ∈ xs, (f x).length ≤ (g x).length) :
    (joined sep (xs.map f)).length ≤ (joined sep (xs.map g)).length := by
  have hrest : ∀ ys : List γ, (∀ y ∈ ys, (f y).length ≤ (g y).length) →
      (ys.flatMap fun y => sep :: f y).length ≤ (ys.flatMap fun y => sep :: g y).length := by
    intro ys hys
    induction ys with
    | nil => exact Nat.le_refl 0
    | cons y ys ih =>
      have hy := hys y List.mem_cons_self
      have hlength := ih fun z hz => hys z (List.mem_cons_of_mem _ hz)
      simp only [List.flatMap_cons, List.length_append, List.length_cons]
      omega
  cases xs with
  | nil => exact Nat.le_refl 0
  | cons x xs =>
    have hx := h x List.mem_cons_self
    have hxs := hrest xs fun y hy => h y (List.mem_cons_of_mem _ hy)
    simp only [List.map_cons, joined, List.flatMap_map, List.length_append]
    omega

omit [DecidableEq τ] in
theorem cur_before_separated {sep : τ} {f g : τ → Prop} (hstop : ∀ t, f t → g t) (hg : g sep)
    (pairs : List (List τ × α)) (c : Cursor τ) (hc : f c.cur) :
    g (c.before (pairs.flatMap fun p => sep :: p.1)).cur := by
  cases pairs with
  | nil => exact hstop _ hc
  | cons p pairs => exact hg

theorem Parses.separatedLoop {sep : τ} {item : Parser τ ε α} {f g : τ → Prop}
    (hsep : ∀ t, f t → t ≠ sep) (hstop : ∀ t, f t → g t) (hg : g sep)
    (pairs : List (List τ × α)) (h : ∀ p ∈ pairs, Parses n item g p.1 p.2) (k : Nat)
    (hk : pairs.length < k) (items : List α) :
    Parses n (LibParse.separatedLoop sep item k items) f (pairs.flatMap fun p => sep :: p.1)
      (items ++ pairs.map Prod.snd) := by
  induction pairs generalizing k items with
  | nil =>
    cases k with
    | zero => omega
    | succ k =>
      rw [List.map_nil, List.append_nil]
      exact Parses.peek_else (fun c hc => hsep c.cur hc) (Parses.pure items f)
  | cons p pairs ih =>
    cases k with
    | zero => omega
    | succ k =>
      rw [List.length_cons] at hk
      have hrest := ih (fun q hq => h q (List.mem_cons_of_mem _ hq)) k (by omega) (items ++ [p.2])
      rw [List.append_assoc] at hrest
      refine Parses.peek ?_
      rw [if_pos rfl]
      exact Parses.advance_bind (Parses.bind (k := fun a => LibParse.separatedLoop sep item k
        (items ++ [a])) (h p List.mem_cons_self) hrest (cur_before_separated hstop hg pairs))

theorem Parses.separated {sep : τ} {item : Parser τ ε α} {f g : τ → Prop}
    (hsep : ∀ t, f t → t ≠ sep) (hstop : ∀ t, f t → g t) (hg : g sep)
    (pairs : List (List τ × α)) (hne : pairs ≠ [])
    (h : ∀ p ∈ pairs, Parses n item g p.1 p.2) (k : Nat) (hk : n ≤ k) :
    Parses n (LibParse.separated sep item k) f (joined sep (pairs.map Prod.fst))
      (pairs.map Prod.snd) := by
  cases pairs with
  | nil => exact absurd rfl hne
  | cons p pairs =>
    intro c hc hn
    have hlength := length_le_flatMap (fun p : List τ × α => sep :: p.1) pairs
      fun q _ => Nat.le_add_left 1 _
    rw [List.map_cons, joined, List.flatMap_map] at hn ⊢
    have hsize := hn
    rw [Cursor.size_before, List.length_append] at hsize
    have hloop := Parses.separatedLoop hsep hstop hg pairs
      (fun q hq => h q (List.mem_cons_of_mem _ hq)) k (by omega) [p.2]
    exact Parses.bind (k := fun a => LibParse.separatedLoop sep item k [a])
      (h p List.mem_cons_self) hloop (cur_before_separated hstop hg pairs) c hc hn

end Tokens

/-! ### Operators before and between items -/

theorem prefixed_item {op : τ → Option (α → α)} {item : Parser τ ε α} (k : Nat) {c : Cursor τ}
    (h : op c.cur = none) : (prefixed op item (k + 1)).run c = item.run c := by
  simp only [prefixed, StateT.run_bind, run_peek, ok_bind, h]

theorem prefixed_push {op : τ → Option (α → α)} {item : Parser τ ε α} (k : Nat) {t : τ}
    {f : α → α} {a : α} {c c' : Cursor τ} (h : op t = some f)
    (hrest : (prefixed op item k).run c = .ok (a, c')) :
    (prefixed op item (k + 1)).run (c.push t) = .ok (f a, c') := by
  simp only [prefixed, StateT.run_bind, run_peek, ok_bind, Cursor.cur_push, h, run_advance,
    Cursor.advance_push, hrest]
  rfl

theorem chainLoop_stop {op : τ → Option (α → α → α)} {item : Parser τ ε α} (k : Nat) (a : α)
    {c : Cursor τ} (h : op c.cur = none) : (chainLoop op item (k + 1) a).run c = .ok (a, c) := by
  simp only [chainLoop, StateT.run_bind, run_peek, ok_bind, h]
  rfl

theorem chainLoop_push {op : τ → Option (α → α → α)} {item : Parser τ ε α} (k : Nat) (a : α)
    {t : τ} {f : α → α → α} {b : α} {c c' : Cursor τ} (h : op t = some f)
    (hitem : item.run c = .ok (b, c')) :
    (chainLoop op item (k + 1) a).run (c.push t) = (chainLoop op item k (f a b)).run c' := by
  simp only [chainLoop, StateT.run_bind, run_peek, ok_bind, Cursor.cur_push, h, run_advance,
    Cursor.advance_push, hitem]

/-- The tokens of a chain bring its loop to the value so far, with fuel for what is left. -/
def Chains (n : Nat) (op : τ → Option (α → α → α)) (item : Parser τ ε α) (follow : τ → Prop)
    (ts : List τ) (a : α) : Prop :=
  ∀ c, follow c.cur → (c.before ts).size < n →
    ∃ k, c.size < k ∧ (chain op item n).run (c.before ts) = (chainLoop op item k a).run c

theorem Chains.one {op : τ → Option (α → α → α)} {item : Parser τ ε α} {g : τ → Prop}
    {ts : List τ} {a : α} (h : Parses n item g ts a) : Chains n op item g ts a := by
  intro c hc hn
  have hlength := Cursor.size_before ts c
  refine ⟨n, by omega, ?_⟩
  rw [chain, StateT.run_bind, h c hc hn]
  rfl

theorem Chains.more {op : τ → Option (α → α → α)} {item : Parser τ ε α} {g : τ → Prop}
    {ts us : List τ} {t : τ} {f : α → α → α} {a b : α} (hchain : Chains n op item g ts a)
    (ht : g t) (hop : op t = some f) (hitem : Parses n item g us b) :
    Chains n op item g (ts ++ t :: us) (f a b) := by
  intro c hc hn
  rw [Cursor.before_append, Cursor.before_cons] at hn ⊢
  have houter := Cursor.size_before ts ((c.before us).push t)
  have hinner := Cursor.size_before us c
  rw [Cursor.size_push] at houter
  obtain ⟨k, hk, hrun⟩ := hchain ((c.before us).push t) ht hn
  rw [Cursor.size_push] at hk
  cases k with
  | zero => omega
  | succ k =>
    refine ⟨k, by omega, ?_⟩
    rw [hrun, chainLoop_push k a hop (hitem c hc (by omega))]

theorem Chains.parses {op : τ → Option (α → α → α)} {item : Parser τ ε α} {f g : τ → Prop}
    {ts : List τ} {a : α} (h : Chains n op item g ts a) (hfollow : ∀ t, f t → g t)
    (hstop : ∀ t, f t → op t = none) : Parses n (chain op item n) f ts a := by
  intro c hc hn
  obtain ⟨k, hk, hrun⟩ := h c (hfollow _ hc) hn
  cases k with
  | zero => omega
  | succ k => rw [hrun, chainLoop_stop k a (hstop _ hc)]

end Rules

end InfraLens.LibParse
