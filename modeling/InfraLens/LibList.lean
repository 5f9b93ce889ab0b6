import Mathlib.Data.List.Basic
import Mathlib.Data.List.Perm.Basic

/-! Lists taken item by item: a fallible map that does not fail, two maps into lists of which one
never gives more, chunks, and items taken key by key. -/
namespace InfraLens.LibList

theorem mapM_ok {α β ε : Type} (f : α → Except ε β) (g : α → β) (xs : List α)
    (h : ∀ x ∈ xs, f x = .ok (g x)) : xs.mapM f = .ok (xs.map g) := by
  induction xs with
  | nil => rfl
  | cons x xs ih =>
    rw [List.mapM_cons, h x List.mem_cons_self, ih fun y hy => h y (List.mem_cons_of_mem _ hy)]
    rfl

theorem flatMap_eq_iff {α β : Type} (f g : α → List β) (xs : List α)
    (h : ∀ x ∈ xs, (f x).length ≤ (g x).length) :
    xs.flatMap f = xs.flatMap g ↔ ∀ x ∈ xs, f x = g x := by
  have hle : ∀ ys : List α, (∀ x ∈ ys, (f x).length ≤ (g x).length) →
      (ys.flatMap f).length ≤ (ys.flatMap g).length := by
    intro ys hys
    induction ys with
    | nil => exact Nat.le_refl _
    | cons y ys ih =>
      have hy := hys y List.mem_cons_self
      have hrest := ih fun x hx => hys x (List.mem_cons_of_mem _ hx)
      rw [List.flatMap_cons, List.flatMap_cons, List.length_append, List.length_append]
      omega
  constructor
  · intro heq
    induction xs with
    | nil => exact fun x hx => absurd hx List.not_mem_nil
    | cons x xs ih =>
      have hrest : ∀ y ∈ xs, (f y).length ≤ (g y).length :=
        fun y hy => h y (List.mem_cons_of_mem _ hy)
      rw [List.flatMap_cons, List.flatMap_cons] at heq
      have hlength : (f x).length = (g x).length := by
        have hsum := congrArg List.length heq
        rw [List.length_append, List.length_append] at hsum
        have hx := h x List.mem_cons_self
        have hxs := hle xs hrest
        omega
      obtain ⟨hhead, htail⟩ := List.append_inj heq hlength
      exact List.forall_mem_cons.mpr ⟨hhead, ih hrest htail⟩
  · exact fun heq => List.flatMap_congr heq

theorem toChunksAux_append {α : Type} (n : Nat) (xs : List α) (i : Nat) :
    (xs.toChunksAux n i).1 ++ (xs.toChunksAux n i).2.flatten = xs := by
  induction xs generalizing i with
  | nil => rfl
  | cons x xs ih =>
    cases i with
    | zero => exact congrArg (x :: ·) (ih n)
    | succ i => exact congrArg (x :: ·) (ih i)

theorem toChunksAux_fst_zero {α : Type} (n : Nat) (xs : List α) : (xs.toChunksAux n 0).1 = [] := by
  cases xs <;> rfl

theorem ne_nil_of_mem_toChunksAux {α : Type} (n : Nat) (xs : List α) (i : Nat) :
    ∀ c ∈ (xs.toChunksAux n i).2, c ≠ [] := by
  induction xs generalizing i with
  | nil => exact fun c hc => absurd hc List.not_mem_nil
  | cons x xs ih =>
    cases i with
    | zero => exact List.forall_mem_cons.mpr ⟨List.cons_ne_nil _ _, ih n⟩
    | succ i => exact ih i

theorem flatMap_single {κ β : Type} [DecidableEq κ] (keys : List κ) (hkeys : keys.Nodup) (k : κ)
    (hk : k ∈ keys) (ys : List β) : (keys.flatMap fun k' => if k = k' then ys else []) = ys := by
  induction keys with
  | nil => exact absurd hk List.not_mem_nil
  | cons k' keys ih =>
    obtain ⟨hnot, hrest⟩ := List.nodup_cons.mp hkeys
    rw [List.flatMap_cons]
    by_cases he : k = k'
    · have hnil : (keys.flatMap fun k'' => if k = k'' then ys else []) = [] := by
        rw [List.flatMap_eq_nil_iff]
        intro k'' hk''
        rw [if_neg]
        rintro rfl
        exact hnot (he ▸ hk'')
      rw [if_pos he, hnil, List.append_nil]
    · rw [if_neg he, List.nil_append, ih hrest ((List.mem_cons.mp hk).resolve_left he)]

theorem flatMap_keys {α κ β : Type} [DecidableEq κ] (key : α → κ) (f : α → List β)
    (keys : List κ) (hkeys : keys.Nodup) (xs : List α) (h : ∀ x ∈ xs, key x ∈ keys) :
    (keys.flatMap fun k => (xs.filter fun x => key x = k).flatMap f).Perm (xs.flatMap f) := by
  induction xs with
  | nil => simp
  | cons x xs ih =>
    have hsplit : (fun k => ((x :: xs).filter fun x => key x = k).flatMap f) = fun k =>
        (if key x = k then f x else []) ++ (xs.filter fun x => key x = k).flatMap f := by
      funext k
      rw [List.filter_cons]
      by_cases hk : key x = k <;> simp [hk]
    rw [hsplit, List.flatMap_cons]
    refine (List.flatMap_append_perm keys _ _).symm.trans ?_
    rw [flatMap_single keys hkeys (key x) (h x List.mem_cons_self)]
    exact (ih fun y hy => h y (List.mem_cons_of_mem x hy)).append_left (f x)

end InfraLens.LibList
