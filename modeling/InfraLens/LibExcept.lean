import Mathlib.Logic.Basic

/-! Computations that may fail, with `Except.map`, and what a success says of their parts. -/
namespace InfraLens.LibExcept

variable {ε α β γ : Type}

theorem ok_bind (a : α) (k : α → Except ε β) : (Except.ok a >>= k) = k a := pure_bind a k

theorem map_map (x : Except ε α) (f : α → β) (g : β → γ) :
    (x.map f).map g = x.map fun a => g (f a) :=
  Functor.map_map f g x

theorem map_of_bind (x : Except ε α) (k : α → Except ε β) (g : β → γ) :
    (x >>= k).map g = x >>= fun a => (k a).map g :=
  map_bind g x k

theorem of_bind_ok (x : Except ε α) (k : α → Except ε β) (r : β) (h : (x >>= k) = .ok r) :
    ∃ a, x = .ok a ∧ k a = .ok r := by
  cases x with
  | error e => cases h
  | ok a => exact ⟨a, rfl, h⟩

theorem map_ok {x : Except ε α} {f : α → β} {b : β} (h : x.map f = .ok b) :
    ∃ a, x = .ok a ∧ b = f a := by
  cases x with
  | error e => cases h
  | ok a => exact ⟨a, rfl, (Except.ok.inj h).symm⟩

end InfraLens.LibExcept
