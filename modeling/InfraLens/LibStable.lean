import Mathlib.Data.List.Sort

/-! Stable sorting by a key. A list whose elements come in an order of their own is sorted
stably when equal keys keep that order, and there is one list that does so. -/
namespace InfraLens.LibStable

variable {α κ : Type} [LinearOrder κ] (key : α → κ) (before : α → α → Prop)

def stableSort (xs : List α) : List α := xs.insertionSort fun a b => key a ≤ key b

/-- Smaller key first, and among equal keys the earlier element. -/
def InOrder (a b : α) : Prop := key a < key b ∨ key a = key b ∧ before a b

theorem perm_stableSort (xs : List α) : (stableSort key xs).Perm xs :=
  List.perm_insertionSort _ xs

theorem pairwise_orderedInsert (x : α) (xs : List α) (hx : ∀ y ∈ xs, before x y)
    (h : xs.Pairwise (InOrder key before)) :
    (xs.orderedInsert (fun a b => key a ≤ key b) x).Pairwise (InOrder key before) := by
  induction xs with
  | nil => simp
  | cons y xs ih =>
    obtain ⟨hy, hxs⟩ := List.pairwise_cons.mp h
    by_cases hle : key x ≤ key y
    · rw [List.orderedInsert_cons_of_le (fun a b => key a ≤ key b) xs hle]
      refine List.pairwise_cons.mpr ⟨?_, h⟩
      intro z hz
      have hyz : key y ≤ key z := by
        cases List.mem_cons.mp hz with
        | inl he => rw [he]
        | inr hm =>
          cases hy z hm with
          | inl hlt => exact le_of_lt hlt
          | inr heq => exact le_of_eq heq.1
      cases lt_or_eq_of_le (le_trans hle hyz) with
      | inl hlt => exact .inl hlt
      | inr heq => exact .inr ⟨heq, hx z hz⟩
    · rw [List.orderedInsert_of_not_le (fun a b => key a ≤ key b) xs hle]
      refine List.pairwise_cons.mpr ⟨?_, ih (fun z hz => hx z (List.mem_cons_of_mem y hz)) hxs⟩
      intro z hz
      cases (List.mem_orderedInsert _).mp hz with
      | inl he => exact .inl (he ▸ not_le.mp hle)
      | inr hm => exact hy z hm

theorem pairwise_stableSort (xs : List α) (h : xs.Pairwise before) :
    (stableSort key xs).Pairwise (InOrder key before) := by
  induction xs with
  | nil => exact List.Pairwise.nil
  | cons x xs ih =>
    obtain ⟨hx, hxs⟩ := List.pairwise_cons.mp h
    rw [stableSort, List.insertionSort_cons]
    apply pairwise_orderedInsert key before x _ ?_ (ih hxs)
    intro y hy
    exact hx y ((perm_stableSort key xs).mem_iff.mp hy)

theorem eq_stableSort (hasymm : ∀ a b, before a b → ¬ before b a) (xs ys : List α)
    (hxs : xs.Pairwise before) (hperm : ys.Perm xs) (hys : ys.Pairwise (InOrder key before)) :
    ys = stableSort key xs := by
  refine List.Perm.eq_of_pairwise ?_ hys (pairwise_stableSort key before xs hxs)
    (hperm.trans (perm_stableSort key xs).symm)
  intro a b _ _ hab hba
  exfalso
  cases hab with
  | inl hlt =>
    cases hba with
    | inl hgt => exact lt_asymm hlt hgt
    | inr heq => exact absurd heq.1 (ne_of_gt hlt)
  | inr heq =>
    cases hba with
    | inl hgt => exact absurd heq.1 (ne_of_gt hgt)
    | inr heq' => exact hasymm a b heq.2 heq'.2

end InfraLens.LibStable
