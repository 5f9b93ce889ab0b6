import Mathlib.Data.Option.Basic

/-! Three-valued logic: Kleene's connectives, and the strict ones, which are unknown as soon
as an operand is. -/
namespace InfraLens.LibKleene

abbrev Truth := Option Bool

def kand : Truth → Truth → Truth
  | some false, _ => some false
  | _, some false => some false
  | some true, some true => some true
  | _, _ => none

def kor : Truth → Truth → Truth
  | some true, _ => some true
  | _, some true => some true
  | some false, some false => some false
  | _, _ => none

def knot : Truth → Truth := Option.map (!·)

/-- A connective that is unknown when either operand is. -/
def strict (f : Bool → Bool → Bool) : Truth → Truth → Truth
  | some a, some b => some (f a b)
  | _, _ => none

@[simp] theorem kand_some (a b : Bool) : kand (some a) (some b) = some (a && b) := by
  cases a <;> cases b <;> rfl

@[simp] theorem kor_some (a b : Bool) : kor (some a) (some b) = some (a || b) := by
  cases a <;> cases b <;> rfl

theorem kand_eq_true (s t : Truth) : kand s t = some true ↔ s = some true ∧ t = some true := by
  match s, t with
  | none, none => simp [kand]
  | none, some true => simp [kand]
  | none, some false => simp [kand]
  | some true, none => simp [kand]
  | some false, none => simp [kand]
  | some a, some b => simp

/-- A strict value `s` beside the Kleene value `k`: unknown where some operand is null, and
otherwise known and the same. -/
def Agrees (null : Bool) (s k : Truth) : Prop :=
  match null with
  | true => s = none
  | false => ∃ v, s = some v ∧ k = some v

variable {m n : Bool} {s t k l : Truth}

theorem agrees_strict {f : Bool → Bool → Bool} {g : Truth → Truth → Truth}
    (hg : ∀ a b, g (some a) (some b) = some (f a b)) (h : Agrees m s k) (h' : Agrees n t l) :
    Agrees (m || n) (strict f s t) (g k l) := by
  cases m with
  | true =>
    cases h
    rfl
  | false =>
    obtain ⟨v, rfl, rfl⟩ := h
    cases n with
    | true =>
      cases h'
      rfl
    | false =>
      obtain ⟨w, rfl, rfl⟩ := h'
      exact ⟨f v w, rfl, hg v w⟩

theorem Agrees.not (h : Agrees m s k) : Agrees m (knot s) (knot k) := by
  cases m with
  | true =>
    cases h
    rfl
  | false =>
    obtain ⟨v, rfl, rfl⟩ := h
    exact ⟨!v, rfl, rfl⟩

/-- The strict value is true exactly where the Kleene value is and no operand is null. -/
theorem Agrees.eq_true_iff (h : Agrees m s k) : s = some true ↔ k = some true ∧ m = false := by
  cases m with
  | true =>
    cases h
    simp
  | false =>
    obtain ⟨v, rfl, rfl⟩ := h
    simp

end InfraLens.LibKleene
