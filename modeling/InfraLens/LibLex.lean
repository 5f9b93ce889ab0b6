import Mathlib.Data.List.Basic

/-! Lexicographic comparison by a list of criteria, and by some of them only. -/
namespace InfraLens.LibLex

def lex : List Ordering → Ordering
  | [] => .eq
  | o :: os => o.then (lex os)

def kept (os : List (Bool × Ordering)) : List Ordering := (os.filter Prod.fst).map Prod.snd

/-- No criterion that does not take part objects, where all criteria before it are equal. -/
def Unopposed (os : List (Bool × Ordering)) : Prop :=
  ∀ (p : Nat) (o : Ordering), os[p]? = some (false, o) →
    (∀ q < p, ∀ e : Bool × Ordering, os[q]? = some e → e.2 = .eq) → o ≠ .gt

theorem unopposed_cons_lt (k : Bool) (os : List (Bool × Ordering)) :
    Unopposed ((k, .lt) :: os) := by
  intro p o hp hq
  cases p with
  | zero =>
    cases hp
    simp
  | succ p => exact absurd (hq 0 (Nat.succ_pos p) _ rfl) (by simp)

theorem unopposed_cons_eq (k : Bool) (os : List (Bool × Ordering)) :
    Unopposed ((k, .eq) :: os) ↔ Unopposed os := by
  constructor
  · intro hall p o hp hq
    apply hall (p + 1) o hp
    intro q hlt e he
    cases q with
    | zero =>
      cases he
      rfl
    | succ q => exact hq q (Nat.lt_of_succ_lt_succ hlt) e he
  · intro hall p o hp hq
    cases p with
    | zero =>
      cases hp
      simp
    | succ p =>
      apply hall p o hp
      intro q hlt e he
      exact hq (q + 1) (Nat.succ_lt_succ hlt) e he

theorem not_unopposed_cons_gt (os : List (Bool × Ordering)) :
    ¬ Unopposed ((false, .gt) :: os) := by
  intro hall
  exact hall 0 .gt rfl (by simp) rfl

/-- Where the criteria that take part do not object, the others decide. -/
theorem lex_ne_gt_iff (os : List (Bool × Ordering)) (h : lex (kept os) ≠ .gt) :
    lex (os.map Prod.snd) ≠ .gt ↔ Unopposed os := by
  induction os with
  | nil => simp [lex, Unopposed]
  | cons e os ih =>
    obtain ⟨k, o⟩ := e
    cases o with
    | lt => exact iff_of_true (by simp [lex]) (unopposed_cons_lt k os)
    | eq =>
      have htail : lex (kept os) ≠ .gt := by
        cases k with
        | true => simpa [kept, lex] using h
        | false => simpa [kept] using h
      rw [unopposed_cons_eq, ← ih htail]
      rfl
    | gt =>
      cases k with
      | true => exact absurd (by simp [kept, lex]) h
      | false => exact iff_of_false (by simp [lex]) (not_unopposed_cons_gt os)

end InfraLens.LibLex
