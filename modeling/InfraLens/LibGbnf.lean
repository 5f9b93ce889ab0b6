import Mathlib.Data.List.Basic

/-! Grammars in GBNF: right sides over names, derivations, and induction over the rules of a
derivation. -/
namespace InfraLens.LibGbnf
variable {N : Type}

/-- The right side of a rule. -/
inductive Form (N : Type) where
  | text (s : String)
  | chars (p : Char → Bool)
  | rule (x : N)
  | seq (as : List (Form N))
  | alt (as : List (Form N))
  | many (a : Form N)

namespace Form

/-- `a+` -/
def plus (a : Form N) : Form N := .seq [a, .many a]

/-- `a?` -/
def opt (a : Form N) : Form N := .alt [.seq [], a]

def oneOf (ss : List String) : Form N := .alt (ss.map .text)

end Form

/-- The texts a form derives with the rules `G`, where every use of a rule meets a condition. -/
inductive Derives (G : N → Form N) (ok : N → List Char → Prop) : Form N → List Char → Prop
  | text (s : String) : Derives G ok (.text s) s.toList
  | chars {p : Char → Bool} {c : Char} (h : p c = true) : Derives G ok (.chars p) [c]
  | rule {x : N} {w : List Char} (hok : ok x w) (h : Derives G ok (G x) w) :
      Derives G ok (.rule x) w
  | nil : Derives G ok (.seq []) []
  | cons {a : Form N} {as : List (Form N)} {u v : List Char} (h : Derives G ok a u)
      (hs : Derives G ok (.seq as) v) : Derives G ok (.seq (a :: as)) (u ++ v)
  | alt {a : Form N} {as : List (Form N)} {w : List Char} (ha : a ∈ as) (h : Derives G ok a w) :
      Derives G ok (.alt as) w
  | stop {a : Form N} : Derives G ok (.many a) []
  | again {a : Form N} {u v : List Char} (h : Derives G ok a u) (hs : Derives G ok (.many a) v) :
      Derives G ok (.many a) (u ++ v)

mutual

/-- The texts of a form whose rules stand for the texts `R` says. -/
def Matches (R : N → List Char → Prop) : Form N → List Char → Prop
  | .text s, w => w = s.toList
  | .chars p, w => ∃ c, w = [c] ∧ p c = true
  | .rule x, w => R x w
  | .seq as, w => MatchesSeq R as w
  | .alt as, w => MatchesAlt R as w
  | .many a, w => ∃ us : List (List Char), w = us.flatten ∧ ∀ u ∈ us, Matches R a u

def MatchesSeq (R : N → List Char → Prop) : List (Form N) → List Char → Prop
  | [], w => w = []
  | a :: as, w => ∃ u v, w = u ++ v ∧ Matches R a u ∧ MatchesSeq R as v

def MatchesAlt (R : N → List Char → Prop) : List (Form N) → List Char → Prop
  | [], _ => False
  | a :: as, w => Matches R a w ∨ MatchesAlt R as w

end

section Matches
attribute [local simp] Matches MatchesSeq MatchesAlt
variable {R : N → List Char → Prop} {w : List Char}

theorem matchesAlt_iff (as : List (Form N)) : MatchesAlt R as w ↔ ∃ a ∈ as, Matches R a w := by
  induction as with
  | nil => simp [MatchesAlt]
  | cons a as ih => simp [MatchesAlt, ih]

theorem matches_text (s : String) : Matches R (.text s) w ↔ w = s.toList := by
  rw [Matches]

theorem matches_rule (x : N) : Matches R (.rule x) w ↔ R x w := by
  rw [Matches]

theorem matches_seq (as : List (Form N)) : Matches R (.seq as) w ↔ MatchesSeq R as w := by
  rw [Matches]

theorem matches_alt (as : List (Form N)) : Matches R (.alt as) w ↔ MatchesAlt R as w := by
  rw [Matches]

theorem matchesSeq_single (a : Form N) : MatchesSeq R [a] w ↔ Matches R a w := by
  rw [MatchesSeq]
  simp only [MatchesSeq]
  constructor
  · rintro ⟨u, v, rfl, hu, rfl⟩
    rwa [List.append_nil]
  · exact fun h => ⟨w, [], (List.append_nil w).symm, h, rfl⟩

theorem matchesSeq_cons (a b : Form N) (as : List (Form N)) : MatchesSeq R (a :: b :: as) w ↔
    ∃ u v, w = u ++ v ∧ Matches R a u ∧ MatchesSeq R (b :: as) v := by
  rw [MatchesSeq]

theorem matches_oneOf (ss : List String) :
    Matches R (.oneOf ss) w ↔ ∃ s ∈ ss, w = s.toList := by
  rw [Form.oneOf, matches_alt, matchesAlt_iff]
  simp [Matches]

theorem matches_opt (a : Form N) : Matches R (.opt a) w ↔ w = [] ∨ Matches R a w := by
  simp [Form.opt, Matches, MatchesAlt, MatchesSeq]

theorem Matches.optional {a : Form N} {P : List Char → Prop} (h : Matches R (.opt a) w)
    (hnil : P []) (ha : Matches R a w → P w) : P w := by
  cases (matches_opt a).mp h with
  | inl hw => exact hw ▸ hnil
  | inr hmatch => exact ha hmatch

theorem matches_many_chars (p : Char → Bool) :
    Matches R (.many (.chars p)) w ↔ ∀ c ∈ w, p c = true := by
  rw [Matches]
  constructor
  · rintro ⟨us, rfl, hus⟩ c hc
    obtain ⟨u, hu, hcu⟩ := List.mem_flatten.mp hc
    have hmatch := hus u hu
    rw [Matches] at hmatch
    obtain ⟨d, rfl, hd⟩ := hmatch
    rwa [List.mem_singleton.mp hcu]
  · intro h
    refine ⟨w.map fun c => [c], ?_, ?_⟩
    · rw [← List.flatMap_def]
      exact (List.flatMap_singleton' w).symm
    · intro u hu
      obtain ⟨c, hc, rfl⟩ := List.mem_map.mp hu
      rw [Matches]
      exact ⟨c, rfl, h c hc⟩

theorem matches_plus_chars (p : Char → Bool) :
    Matches R (.plus (.chars p)) w ↔ w ≠ [] ∧ ∀ c ∈ w, p c = true := by
  rw [Form.plus, Matches, MatchesSeq]
  simp only [MatchesSeq, matches_many_chars]
  constructor
  · rintro ⟨u, v, rfl, hu, v', x, rfl, hv, rfl⟩
    rw [Matches] at hu
    obtain ⟨c, rfl, hc⟩ := hu
    refine ⟨by simp, ?_⟩
    rw [List.append_nil]
    simpa using ⟨hc, hv⟩
  · rintro ⟨hne, h⟩
    obtain ⟨c, cs, rfl⟩ := List.exists_cons_of_ne_nil hne
    refine ⟨[c], cs, rfl, ?_, cs, [], by simp, fun d hd => h d (List.mem_cons_of_mem _ hd), rfl⟩
    rw [Matches]
    exact ⟨c, rfl, h c List.mem_cons_self⟩

end Matches

variable {G : N → Form N} {ok : N → List Char → Prop} {P : N → List Char → Prop}

theorem Derives.matches (h : ∀ x w, ok x w → Matches P (G x) w → P x w) {a : Form N}
    {w : List Char} (hd : Derives G ok a w) : Matches P a w := by
  induction hd with
  | text s => rw [Matches]
  | chars hc =>
    rw [Matches]
    exact ⟨_, rfl, hc⟩
  | rule hok hd ih =>
    rw [Matches]
    exact h _ _ hok ih
  | nil => rw [matches_seq, MatchesSeq]
  | cons hd hs ih ihs =>
    rw [matches_seq] at ihs
    rw [matches_seq, MatchesSeq]
    exact ⟨_, _, rfl, ih, ihs⟩
  | alt ha hd ih =>
    rw [matches_alt, matchesAlt_iff]
    exact ⟨_, ha, ih⟩
  | stop =>
    rw [Matches]
    exact ⟨[], rfl, by simp⟩
  | again hd hs ih ihs =>
    rw [Matches] at ihs ⊢
    obtain ⟨us, rfl, hus⟩ := ihs
    refine ⟨_ :: us, rfl, ?_⟩
    intro u hu
    cases List.mem_cons.mp hu with
    | inl he => exact he ▸ ih
    | inr hm => exact hus u hm

theorem Derives.induction (h : ∀ x w, ok x w → Matches P (G x) w → P x w) {x : N} {w : List Char}
    (hd : Derives G ok (.rule x) w) : P x w := by
  exact (matches_rule x).mp (hd.matches h)

end InfraLens.LibGbnf
