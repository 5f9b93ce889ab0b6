import Mathlib.Data.Finset.Card

/-! The items of a list in the order of their first occurrence. -/
namespace InfraLens.LibDistinct

variable {α : Type} [DecidableEq α]

def firsts (seen : List α) : List α → List α
  | [] => []
  | x :: xs => if x ∈ seen then firsts seen xs else x :: firsts (x :: seen) xs

theorem firsts_cons_of_mem (seen : List α) (x : α) (xs : List α) (h : x ∈ seen) :
    firsts seen (x :: xs) = firsts seen xs := if_pos h

theorem firsts_cons_of_notMem (seen : List α) (x : α) (xs : List α) (h : x ∉ seen) :
    firsts seen (x :: xs) = x :: firsts (x :: seen) xs := if_neg h

theorem mem_firsts (seen xs : List α) (a : α) : a ∈ firsts seen xs ↔ a ∈ xs ∧ a ∉ seen := by
  induction xs generalizing seen with
  | nil => simp [firsts]
  | cons x xs ih =>
    by_cases hx : x ∈ seen
    · rw [firsts_cons_of_mem seen x xs hx, ih, List.mem_cons]
      grind
    · rw [firsts_cons_of_notMem seen x xs hx, List.mem_cons, ih, List.mem_cons, List.mem_cons]
      grind

theorem nodup_firsts (seen xs : List α) : (firsts seen xs).Nodup := by
  induction xs generalizing seen with
  | nil => exact List.nodup_nil
  | cons x xs ih =>
    by_cases hx : x ∈ seen
    · rw [firsts_cons_of_mem seen x xs hx]
      exact ih seen
    · rw [firsts_cons_of_notMem seen x xs hx, List.nodup_cons, mem_firsts]
      exact ⟨fun h => h.2 List.mem_cons_self, ih (x :: seen)⟩

theorem firsts_congr (seen seen' xs : List α) (h : ∀ a, a ∈ seen ↔ a ∈ seen') :
    firsts seen xs = firsts seen' xs := by
  induction xs generalizing seen seen' with
  | nil => rfl
  | cons x xs ih =>
    have hcons : ∀ a, a ∈ x :: seen ↔ a ∈ x :: seen' := fun a => by
      rw [List.mem_cons, List.mem_cons, h]
    rw [firsts, firsts, ih seen seen' h, ih (x :: seen) (x :: seen') hcons]
    exact if_congr (h x) rfl rfl

theorem firsts_cons_seen (y : α) (seen xs : List α) :
    firsts (y :: seen) xs = (firsts seen xs).filter (· ≠ y) := by
  induction xs generalizing seen with
  | nil => rfl
  | cons x xs ih =>
    by_cases hx : x ∈ seen
    · rw [firsts_cons_of_mem seen x xs hx, firsts_cons_of_mem _ x xs (List.mem_cons_of_mem y hx)]
      exact ih seen
    · rw [firsts_cons_of_notMem seen x xs hx]
      by_cases hxy : x = y
      · subst hxy
        have hself : ∀ a ∈ firsts (x :: seen) xs, decide (a ≠ x) = true := by
          intro a ha
          have hnot := ((mem_firsts (x :: seen) xs a).mp ha).2
          exact decide_eq_true fun heq => hnot (heq ▸ List.mem_cons_self)
        rw [firsts_cons_of_mem _ x xs List.mem_cons_self,
          List.filter_cons_of_neg (by simp), List.filter_eq_self.mpr hself]
      · have hnot : x ∉ y :: seen := by
          rw [List.mem_cons, not_or]
          exact ⟨hxy, hx⟩
        have hswap : firsts (x :: y :: seen) xs = firsts (y :: x :: seen) xs :=
          firsts_congr _ _ xs fun a => by
            rw [List.mem_cons, List.mem_cons, List.mem_cons, List.mem_cons]
            exact or_left_comm
        rw [firsts_cons_of_notMem _ x xs hnot, List.filter_cons_of_pos (by simp [hxy]), hswap, ih]

theorem firsts_filter (p : α → Bool) (seen xs : List α) :
    firsts seen (xs.filter p) = (firsts seen xs).filter p := by
  induction xs generalizing seen with
  | nil => rfl
  | cons x xs ih =>
    by_cases hx : x ∈ seen
    · rw [firsts_cons_of_mem seen x xs hx]
      by_cases hp : p x = true
      · rw [List.filter_cons_of_pos hp, firsts_cons_of_mem seen x _ hx, ih]
      · rw [List.filter_cons_of_neg hp, ih]
    · rw [firsts_cons_of_notMem seen x xs hx]
      by_cases hp : p x = true
      · rw [List.filter_cons_of_pos hp, firsts_cons_of_notMem seen x _ hx,
          List.filter_cons_of_pos hp, ih]
      · -- the dropped item is in neither list, so it need not count as seen
        have hrest : (firsts seen xs).filter p =
            ((firsts seen xs).filter (· ≠ x)).filter p := by
          rw [List.filter_filter]
          apply List.filter_congr
          intro a _
          by_cases ha : a = x
          · simp [ha, hp]
          · simp [ha]
        rw [List.filter_cons_of_neg hp, List.filter_cons_of_neg hp, ih, firsts_cons_seen, hrest]

theorem head?_firsts (xs : List α) : (firsts [] xs).head? = xs.head? := by
  cases xs with
  | nil => rfl
  | cons x xs =>
    rw [firsts_cons_of_notMem [] x xs List.not_mem_nil, List.head?_cons, List.head?_cons]

theorem length_firsts (xs : List α) : (firsts [] xs).length = xs.toFinset.card := by
  rw [← List.toFinset_card_of_nodup (nodup_firsts [] xs)]
  congr 1
  ext a
  rw [List.mem_toFinset, List.mem_toFinset, mem_firsts]
  simp

end InfraLens.LibDistinct
