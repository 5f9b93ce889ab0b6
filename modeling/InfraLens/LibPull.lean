import Mathlib.Data.List.Basic

/-! Pull-based operators. A pull is what its consumer sees when it keeps asking for the next
item: an end, a failure, or an item and the rest. Nothing is computed before it is asked for,
so an operator that stops early hides the failures behind it. -/
namespace InfraLens.LibPull

inductive Pull (ε β : Type) where
  | done
  | fail (e : ε)
  | next (b : β) (rest : Pull ε β)

variable {ε β γ σ : Type}

namespace Pull

def ofList : List β → Pull ε β
  | [] => done
  | b :: bs => next b (ofList bs)

def collect : Pull ε β → Except ε (List β)
  | done => .ok []
  | fail e => .error e
  | next b rest =>
    match rest.collect with
    | .ok bs => .ok (b :: bs)
    | .error e => .error e

/-- An operator that asks its child for one item at a time, in some state: it stops, fails,
passes something on, or asks again. -/
def transduce (stop : σ → Bool) (step : σ → β → Except ε (σ × Option γ)) :
    σ → Pull ε β → Pull ε γ
  | _, done => done
  | s, fail e => if stop s then done else fail e
  | s, next b rest =>
    if stop s then done
    else
      match step s b with
      | .error e => fail e
      | .ok (s', some c) => next c (transduce stop step s' rest)
      | .ok (s', none) => transduce stop step s' rest

/-- An operator without state that drops, passes on or fails. -/
def filterMapM (f : β → Except ε (Option γ)) : Pull ε β → Pull ε γ :=
  transduce (fun _ => false) (fun _ b => (f b).map fun o => ((), o)) ()

def andThen {δ : Type} (f : β → Except ε (Option γ)) (g : γ → Except ε (Option δ)) (b : β) :
    Except ε (Option δ) :=
  match f b with
  | .error e => .error e
  | .ok none => .ok none
  | .ok (some c) => g c

theorem andThen_assoc {δ ζ : Type} (f : β → Except ε (Option γ)) (g : γ → Except ε (Option δ))
    (h : δ → Except ε (Option ζ)) : andThen (andThen f g) h = andThen f (andThen g h) := by
  funext b
  cases hf : f b with
  | error e => simp [andThen, hf]
  | ok o => cases o <;> simp [andThen, hf]

theorem eq_ok_join (r : Except ε (Option β)) (h : ∃ o, r = .ok o) : r = .ok r.toOption.join := by
  obtain ⟨o, rfl⟩ := h
  rfl

@[simp] theorem collect_ofList (bs : List β) : (ofList bs : Pull ε β).collect = .ok bs := by
  induction bs with
  | nil => rfl
  | cons b bs ih => rw [ofList, collect, ih]

theorem filterMapM_next (f : β → Except ε (Option γ)) (b : β) (rest : Pull ε β) :
    filterMapM f (next b rest) =
      match f b with
      | .error e => fail e
      | .ok (some c) => next c (filterMapM f rest)
      | .ok none => filterMapM f rest := by
  cases hf : f b with
  | error e => simp [filterMapM, transduce, hf, Except.map]
  | ok o => cases o <;> simp [filterMapM, transduce, hf, Except.map]

theorem filterMapM_filterMapM {δ : Type} (f : β → Except ε (Option γ))
    (g : γ → Except ε (Option δ)) (s : Pull ε β) :
    filterMapM g (filterMapM f s) = filterMapM (andThen f g) s := by
  induction s with
  | done => rfl
  | fail e => rfl
  | next b rest ih =>
    rw [filterMapM_next, filterMapM_next, andThen]
    cases hf : f b with
    | error e => rfl
    | ok o =>
      cases o with
      | none => exact ih
      | some c =>
        change filterMapM g (next c (filterMapM f rest)) = _
        rw [filterMapM_next, ih]

theorem filterMapM_ofList (f : β → Except ε (Option γ)) (g : β → Option γ) (bs : List β)
    (h : ∀ b ∈ bs, f b = .ok (g b)) : filterMapM f (ofList bs) = ofList (bs.filterMap g) := by
  induction bs with
  | nil => rfl
  | cons b bs ih =>
    have hb := h b List.mem_cons_self
    have hrest := ih fun b' hb' => h b' (List.mem_cons_of_mem b hb')
    rw [ofList, filterMapM_next, hb, hrest]
    cases hg : g b with
    | none => rw [List.filterMap_cons_none hg]
    | some c => rw [List.filterMap_cons_some hg, ofList]

theorem ok_of_collect (f : β → Except ε (Option γ)) (bs : List β) (cs : List γ)
    (h : (filterMapM f (ofList bs)).collect = .ok cs) (b : β) (hb : b ∈ bs) :
    ∃ o, f b = .ok o := by
  induction bs generalizing cs with
  | nil => cases hb
  | cons b' bs ih =>
    rw [ofList, filterMapM_next] at h
    cases hf : f b' with
    | error e =>
      rw [hf] at h
      cases h
    | ok o =>
      have htail : ∃ cs', (filterMapM f (ofList bs)).collect = .ok cs' := by
        rw [hf] at h
        cases o with
        | none => exact ⟨cs, h⟩
        | some c =>
          rw [collect] at h
          cases hc : (filterMapM f (ofList bs)).collect with
          | ok cs' => exact ⟨cs', rfl⟩
          | error e =>
            rw [hc] at h
            cases h
      obtain ⟨cs', hcs'⟩ := htail
      cases List.mem_cons.mp hb with
      | inl he => exact ⟨o, he ▸ hf⟩
      | inr hm => exact ih cs' hcs' hm

def All (P : β → Prop) : Pull ε β → Prop
  | done => True
  | fail _ => True
  | next b rest => P b ∧ rest.All P

theorem all_ofList (P : β → Prop) (bs : List β) (h : ∀ b ∈ bs, P b) :
    (ofList bs : Pull ε β).All P := by
  induction bs with
  | nil => trivial
  | cons b bs ih => exact ⟨h b List.mem_cons_self, ih fun c hc => h c (List.mem_cons_of_mem b hc)⟩

theorem all_collect (P : β → Prop) (s : Pull ε β) (h : s.All P) (bs : List β)
    (hbs : s.collect = .ok bs) : ∀ b ∈ bs, P b := by
  induction s generalizing bs with
  | done =>
    cases hbs
    simp
  | fail e => cases hbs
  | next b rest ih =>
    rw [collect] at hbs
    cases hrest : rest.collect with
    | error e =>
      rw [hrest] at hbs
      cases hbs
    | ok cs =>
      rw [hrest] at hbs
      cases hbs
      intro c hc
      cases List.mem_cons.mp hc with
      | inl he => exact he ▸ h.1
      | inr hm => exact ih h.2 cs hrest c hm

theorem all_transduce (P : β → Prop) (Q : γ → Prop) (stop : σ → Bool)
    (step : σ → β → Except ε (σ × Option γ))
    (hstep : ∀ s b s' c, P b → step s b = .ok (s', some c) → Q c) (child : Pull ε β)
    (h : child.All P) (s : σ) : (transduce stop step s child).All Q := by
  induction child generalizing s with
  | done => trivial
  | fail e =>
    rw [transduce]
    split <;> trivial
  | next b rest ih =>
    rw [transduce]
    split
    · trivial
    · split
      next e he => trivial
      next s' c he => exact ⟨hstep s b s' c h.1 he, ih h.2 s'⟩
      next s' he => exact ih h.2 s'

end Pull

/-! ### Polling -/

section Polling
variable (poll : σ → Option β × σ)

/-- What the call number `i` returns, from a state on. -/
def answer : Nat → σ → Option β
  | 0, s => (poll s).1
  | i + 1, s => answer i (poll s).2

/-- The calls return these items one after the other, and then nothing for ever. -/
def Answers (s : σ) (outs : List β) : Prop := ∀ i, answer poll i s = outs[i]?

theorem answer_congr (s s' : σ) (h : poll s = poll s') (i : Nat) :
    answer poll i s = answer poll i s' := by
  cases i with
  | zero => rw [answer, answer, h]
  | succ i => rw [answer, answer, h]

theorem answers_nil (s : σ) (h : poll s = (none, s)) : Answers poll s [] := by
  intro i
  induction i with
  | zero => rw [answer, h, List.getElem?_nil]
  | succ i ih => rw [answer, h, ih, List.getElem?_nil, List.getElem?_nil]

theorem answers_cons (s s' : σ) (b : β) (outs : List β) (h : poll s = (some b, s'))
    (hrest : Answers poll s' outs) : Answers poll s (b :: outs) := by
  intro i
  cases i with
  | zero => rw [answer, h, List.getElem?_cons_zero]
  | succ i => rw [answer, h, List.getElem?_cons_succ, hrest i]

def firstAnswers (k : Nat) (s : σ) : List β := (List.range k).filterMap fun i => answer poll i s

theorem firstAnswers_eq (s : σ) (outs : List β) (h : Answers poll s outs) (k : Nat) :
    firstAnswers poll k s = outs.take k := by
  have hget : (fun i => answer poll i s) = fun i => outs[i]? := funext h
  rw [firstAnswers, hget]
  induction k with
  | zero => rfl
  | succ k ih =>
    rw [List.range_succ, List.filterMap_append, ih, List.take_add_one]
    cases hk : outs[k]? with
    | none => simp [hk]
    | some b => simp [hk]

end Polling

end InfraLens.LibPull
