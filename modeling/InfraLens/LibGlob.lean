import Mathlib.Data.List.Infix

/-! Patterns that are pieces with arbitrary gaps between them, and what a search for one piece
after the other, each as far to the left as it goes, finds. -/
namespace InfraLens.LibGlob

variable {α : Type}

/-- Each piece comes after some gap, and the text ends with the last one. -/
def Gapped : List (List α) → List α → Prop
  | [], s => s = []
  | p :: ps, s => ∃ gap rest, s = gap ++ (p ++ rest) ∧ Gapped ps rest

/-- The text starts with the first piece and ends with the last one. -/
def Glob : List (List α) → List α → Prop
  | [], s => s = []
  | p :: ps, s => ∃ rest, s = p ++ rest ∧ Gapped ps rest

theorem gapped_prepend (ps : List (List α)) (h : ps ≠ []) (t s : List α) (hs : Gapped ps s) :
    Gapped ps (t ++ s) := by
  cases ps with
  | nil => exact absurd rfl h
  | cons p ps =>
    obtain ⟨gap, rest, rfl, hrest⟩ := hs
    exact ⟨t ++ gap, rest, by rw [List.append_assoc], hrest⟩

theorem gapped_extend (ps : List (List α)) (h : ps.getLast? = some []) (s t : List α)
    (hs : Gapped ps s) : Gapped ps (s ++ t) := by
  induction ps generalizing s with
  | nil => cases h
  | cons p ps ih =>
    obtain ⟨gap, rest, rfl, hrest⟩ := hs
    cases ps with
    | nil =>
      obtain rfl : p = [] := by simpa using h
      exact ⟨gap ++ (rest ++ t), [], by simp, rfl⟩
    | cons q qs =>
      refine ⟨gap, rest ++ t, by simp, ih ?_ rest hrest⟩
      rw [← h, List.getLast?_cons_cons]

theorem glob_cons_nil (ps : List (List α)) (s : List α) : Glob ([] :: ps) s ↔ Gapped ps s := by
  constructor
  · rintro ⟨rest, rfl, hrest⟩
    exact hrest
  · intro hs
    exact ⟨s, rfl, hs⟩

theorem gapped_iff_glob (p : List α) (ps : List (List α)) (s : List α) :
    Gapped (p :: ps) s ↔ ∃ gap rest, s = gap ++ rest ∧ Glob (p :: ps) rest := by
  constructor
  · rintro ⟨gap, rest, rfl, hrest⟩
    exact ⟨gap, p ++ rest, rfl, rest, rfl, hrest⟩
  · rintro ⟨gap, _, rfl, rest, rfl, hrest⟩
    exact ⟨gap, rest, rfl, hrest⟩

/-! ### Searching -/

/-- The first place at which a piece stands. -/
structure LeftmostAt (p s : List α) (i : Nat) : Prop where
  here : p <+: s.drop i
  first : ∀ j, p <+: s.drop j → i ≤ j

/-- The shortest start of a text with a property. -/
structure Shortest (P : List α → Prop) (s u : List α) : Prop where
  start : u <+: s
  holds : P u
  least : ∀ v, v <+: s → P v → u.length ≤ v.length

theorem take_of_leftmostAt (p s : List α) (i : Nat) (h : LeftmostAt p s i) :
    s.take (i + p.length) = s.take i ++ p := by
  rw [List.take_add]
  congr 1
  exact (List.prefix_iff_eq_take.mp h.here).symm

section Leftmost
variable (p : List α) (ps : List (List α)) (s : List α) (i : Nat) (h : LeftmostAt p s i)
include h

/-- Whatever match there is, taking the first piece at its first place leaves a match of the
others that ends no later. -/
theorem gapped_after (v : List α) (hv : v <+: s) (hp : Gapped (p :: ps) v) :
    ∃ w, w <+: s.drop (i + p.length) ∧ Gapped ps w ∧ i + p.length + w.length ≤ v.length := by
  obtain ⟨gap, rest, rfl, hrest⟩ := hp
  have hgap : i ≤ gap.length := by
    apply h.first
    obtain ⟨t, rfl⟩ := hv
    refine ⟨rest ++ t, ?_⟩
    simp
  cases ps with
  | nil =>
    refine ⟨[], List.nil_prefix, rfl, ?_⟩
    simp only [List.length_append, List.length_nil]
    omega
  | cons q qs =>
    refine ⟨(gap ++ (p ++ rest)).drop (i + p.length), hv.drop _, ?_, ?_⟩
    · -- what is left of the text ends with what was left in the match
      have hcut : (gap ++ (p ++ rest)).drop (i + p.length) =
          ((gap ++ p).drop (i + p.length)) ++ rest := by
        rw [← List.append_assoc, List.drop_append_of_le_length]
        rw [List.length_append]
        omega
      rw [hcut]
      exact gapped_prepend (q :: qs) (List.cons_ne_nil q qs) _ rest hrest
    · simp only [List.length_drop, List.length_append]
      omega

theorem shortest_cons (hi : i ≤ s.length) (u : List α)
    (hu : Shortest (Gapped ps) (s.drop (i + p.length)) u) :
    Shortest (Gapped (p :: ps)) s (s.take (i + p.length) ++ u) where
  start := by
    nth_rewrite 2 [← List.take_append_drop (i + p.length) s]
    exact (List.prefix_append_right_inj _).mpr hu.start
  holds := by
    rw [take_of_leftmostAt p s i h, List.append_assoc]
    exact ⟨s.take i, u, rfl, hu.holds⟩
  least := by
    intro v hv hp
    obtain ⟨w, hw, hgapped, hlen⟩ := gapped_after p ps s i h v hv hp
    have hle := hu.least w hw hgapped
    rw [List.length_append, take_of_leftmostAt p s i h, List.length_append, List.length_take]
    omega

end Leftmost

theorem not_gapped_of_absent (p : List α) (ps : List (List α)) (s : List α)
    (h : ∀ j, ¬ p <+: s.drop j) (v : List α) (hv : v <+: s) : ¬ Gapped (p :: ps) v := by
  rintro ⟨gap, rest, rfl, _⟩
  obtain ⟨t, rfl⟩ := hv
  apply h gap.length
  exact ⟨rest ++ t, by simp⟩

end InfraLens.LibGlob
