import Mathlib.Order.Lattice
import Mathlib.Data.List.Perm.Basic
import Mathlib.Data.List.AList

/-! A map kept as its entries in strictly increasing key order (std `BTreeMap`), and how
the entries of an unordered map change (`AList`, for `DashMap`). -/
namespace InfraLens.LibMap

variable {κ ν : Type} [LinearOrder κ]

structure BTreeMap (κ ν : Type) [LinearOrder κ] where
  entries : List (κ × ν)
  sorted : entries.Pairwise (fun a b => a.1 < b.1)

def BTreeMap.empty : BTreeMap κ ν := ⟨[], List.Pairwise.nil⟩

/-- Insertion in key order; the value under an equal key is replaced. -/
def insertEntry (k : κ) (v : ν) : List (κ × ν) → List (κ × ν)
  | [] => [(k, v)]
  | e :: es =>
    if k < e.1 then (k, v) :: e :: es
    else if e.1 < k then e :: insertEntry k v es
    else (k, v) :: es

theorem mem_insertEntry_iff (k : κ) (v : ν) (l : List (κ × ν))
    (h : l.Pairwise (fun a b => a.1 < b.1)) (e : κ × ν) :
    e ∈ insertEntry k v l ↔ e = (k, v) ∨ e ∈ l ∧ e.1 ≠ k := by
  induction l with
  | nil => simp [insertEntry]
  | cons a es ih =>
    obtain ⟨ha, hes⟩ := List.pairwise_cons.mp h
    rw [insertEntry]
    split
    next hlt =>
      have hother : e ∈ a :: es → e.1 ≠ k := by
        intro he heq
        cases List.mem_cons.mp he with
        | inl hea => exact absurd hlt (by simp [← heq, hea])
        | inr het => exact absurd (lt_trans hlt (ha e het)) (by simp [heq])
      rw [List.mem_cons]
      exact or_congr_right ⟨fun he => ⟨he, hother he⟩, And.left⟩
    next hnlt =>
      split
      next hgt =>
        have hself : a.1 ≠ k := ne_of_lt hgt
        rw [List.mem_cons, ih hes, List.mem_cons]
        constructor
        · intro he
          obtain rfl | rfl | ⟨hm, hk⟩ := he
          · exact Or.inr ⟨Or.inl rfl, hself⟩
          · exact Or.inl rfl
          · exact Or.inr ⟨Or.inr hm, hk⟩
        · intro he
          obtain rfl | ⟨rfl | hm, hk⟩ := he
          · exact Or.inr (Or.inl rfl)
          · exact Or.inl rfl
          · exact Or.inr (Or.inr ⟨hm, hk⟩)
      next hngt =>
        have hk : a.1 = k := le_antisymm (not_lt.mp hnlt) (not_lt.mp hngt)
        rw [List.mem_cons, List.mem_cons]
        constructor
        · intro he
          cases he with
          | inl heq => exact Or.inl heq
          | inr hm => exact Or.inr ⟨Or.inr hm, hk ▸ ne_of_gt (ha e hm)⟩
        · intro he
          obtain heq | ⟨rfl | hm, hne⟩ := he
          · exact Or.inl heq
          · exact absurd hk hne
          · exact Or.inr hm

theorem insertEntry_sorted (k : κ) (v : ν) (l : List (κ × ν))
    (h : l.Pairwise (fun a b => a.1 < b.1)) :
    (insertEntry k v l).Pairwise (fun a b => a.1 < b.1) := by
  induction l with
  | nil => simp [insertEntry]
  | cons a es ih =>
    obtain ⟨ha, hes⟩ := List.pairwise_cons.mp h
    rw [insertEntry]
    split
    · rename_i hk
      refine List.pairwise_cons.mpr ⟨?_, h⟩
      intro b hb
      cases List.mem_cons.mp hb with
      | inl he => exact he ▸ hk
      | inr ht => exact lt_trans hk (ha b ht)
    · split
      · rename_i hk
        refine List.pairwise_cons.mpr ⟨?_, ih hes⟩
        intro b hb
        cases (mem_insertEntry_iff k v es hes b).mp hb with
        | inl he => exact he ▸ hk
        | inr ht => exact ha b ht.1
      · rename_i h1 h2
        have hk : k = a.1 := le_antisymm (not_lt.mp h2) (not_lt.mp h1)
        refine List.pairwise_cons.mpr ⟨?_, hes⟩
        intro b hb
        exact hk ▸ ha b hb

theorem insertEntry_perm (k : κ) (v : ν) (l : List (κ × ν)) (h : ∀ e ∈ l, e.1 ≠ k) :
    (insertEntry k v l).Perm ((k, v) :: l) := by
  induction l with
  | nil => exact List.Perm.refl _
  | cons a es ih =>
    rw [insertEntry]
    split
    · exact List.Perm.refl _
    · split
      · exact ((ih (fun e he => h e (List.mem_cons_of_mem a he))).cons a).trans
          (List.Perm.swap _ _ _)
      · rename_i h1 h2
        exact absurd (le_antisymm (not_lt.mp h1) (not_lt.mp h2)) (h a (by simp))

def BTreeMap.insert (m : BTreeMap κ ν) (k : κ) (v : ν) : BTreeMap κ ν :=
  ⟨insertEntry k v m.entries, insertEntry_sorted k v m.entries m.sorted⟩

theorem BTreeMap.mem_insert (m : BTreeMap κ ν) (k : κ) (v : ν) (e : κ × ν) :
    e ∈ (m.insert k v).entries ↔ e = (k, v) ∨ e ∈ m.entries ∧ e.1 ≠ k :=
  mem_insertEntry_iff k v m.entries m.sorted e

def BTreeMap.remove (m : BTreeMap κ ν) (k : κ) : BTreeMap κ ν :=
  ⟨m.entries.filter fun e => e.1 ≠ k, m.sorted.filter _⟩

theorem BTreeMap.mem_remove (m : BTreeMap κ ν) (k : κ) (e : κ × ν) :
    e ∈ (m.remove k).entries ↔ e ∈ m.entries ∧ e.1 ≠ k := by
  simp [BTreeMap.remove]

def BTreeMap.rangeFrom (m : BTreeMap κ ν) (k : κ) : List (κ × ν) :=
  m.entries.filter fun e => k ≤ e.1

theorem BTreeMap.entries_inj (m m' : BTreeMap κ ν) : m.entries = m'.entries ↔ m = m' := by
  cases m
  cases m'
  rw [BTreeMap.mk.injEq]

theorem BTreeMap.eq_of_mem (m m' : BTreeMap κ ν)
    (h : ∀ e, e ∈ m.entries ↔ e ∈ m'.entries) : m = m' := by
  have hnodup : ∀ m : BTreeMap κ ν, m.entries.Nodup := fun m =>
    m.sorted.imp fun hlt heq => absurd hlt (by simp [heq])
  have hperm : m.entries.Perm m'.entries :=
    (List.perm_ext_iff_of_nodup (hnodup m) (hnodup m')).mpr h
  exact (BTreeMap.entries_inj m m').mp
    (hperm.eq_of_pairwise (fun a b _ _ hab hba => absurd (lt_trans hab hba) (lt_irrefl _))
      m.sorted m'.sorted)

def BTreeMap.ofList (es : List (κ × ν)) : BTreeMap κ ν :=
  es.foldl (fun m e => m.insert e.1 e.2) .empty

def lastOf (k : κ) : List (κ × ν) → Option ν
  | [] => none
  | e :: es => (lastOf k es).or (if e.1 = k then some e.2 else none)

theorem mem_foldl_insert (es : List (κ × ν)) (m : BTreeMap κ ν) (e : κ × ν) :
    e ∈ (es.foldl (fun m e => m.insert e.1 e.2) m).entries ↔
      lastOf e.1 es = some e.2 ∨ lastOf e.1 es = none ∧ e ∈ m.entries := by
  induction es generalizing m with
  | nil => simp [lastOf]
  | cons a es ih =>
    rw [List.foldl_cons, ih, BTreeMap.mem_insert, lastOf]
    cases hl : lastOf e.1 es with
    | some v => simp
    | none =>
      by_cases ha : a.1 = e.1
      · simp [ha, Prod.ext_iff, eq_comm]
      · simp [ha, Prod.ext_iff, Ne.symm ha]

theorem BTreeMap.mem_ofList (es : List (κ × ν)) (e : κ × ν) :
    e ∈ (BTreeMap.ofList es).entries ↔ lastOf e.1 es = some e.2 := by
  rw [BTreeMap.ofList, mem_foldl_insert]
  simp [BTreeMap.empty]

theorem BTreeMap.ofList_eq_iff (es es' : List (κ × ν)) :
    BTreeMap.ofList es = BTreeMap.ofList es' ↔ ∀ k, lastOf k es = lastOf k es' := by
  constructor
  · intro h k
    refine Option.ext fun v => ?_
    rw [← BTreeMap.mem_ofList es (k, v), ← BTreeMap.mem_ofList es' (k, v), h]
  · intro h
    refine BTreeMap.eq_of_mem _ _ fun e => ?_
    rw [BTreeMap.mem_ofList, BTreeMap.mem_ofList, h]

theorem length_insertEntry_le (k : κ) (v : ν) (l : List (κ × ν)) :
    (insertEntry k v l).length ≤ l.length + 1 := by
  induction l with
  | nil => exact Nat.le_refl _
  | cons a es ih =>
    rw [insertEntry]
    split
    · exact Nat.le_refl _
    · split
      · exact Nat.succ_le_succ ih
      · exact Nat.le_succ _

theorem BTreeMap.length_ofList_le (es : List (κ × ν)) :
    (BTreeMap.ofList es).entries.length ≤ es.length := by
  have hfold : ∀ m : BTreeMap κ ν, (es.foldl (fun m e => m.insert e.1 e.2) m).entries.length ≤
      m.entries.length + es.length := by
    induction es with
    | nil => exact fun m => Nat.le_refl _
    | cons a es ih =>
      intro m
      have hrest := ih (m.insert a.1 a.2)
      have hone : (m.insert a.1 a.2).entries.length ≤ m.entries.length + 1 :=
        length_insertEntry_le a.1 a.2 m.entries
      rw [List.foldl_cons, List.length_cons]
      omega
  exact Nat.le_trans (hfold .empty) (by simp [BTreeMap.empty])

theorem BTreeMap.nodup_keys (m : BTreeMap κ ν) : (m.entries.map Prod.fst).Nodup :=
  List.pairwise_map.mpr (m.sorted.imp ne_of_lt)

theorem entries_perm_of_lookup {κ : Type} [DecidableEq κ] (m : AList (fun _ : κ => ν)) (k : κ)
    (v : ν) (h : m.lookup k = some v) : m.entries.Perm (⟨k, v⟩ :: (m.erase k).entries) := by
  have hk : k ∈ m.entries.keys := AList.mem_keys.mp (AList.lookup_isSome.mp (by simp [h]))
  obtain ⟨w, l₁, l₂, hnot, he, hke⟩ := List.exists_of_kerase hk
  have hv : w = v := by
    have hl : List.dlookup k m.entries = some v := h
    rw [he, List.dlookup_append, List.dlookup_eq_none.mpr hnot] at hl
    simpa using hl
  subst hv
  have herase : (m.erase k).entries = l₁ ++ l₂ := hke
  rw [herase, he]
  exact List.perm_middle

theorem erase_entries_of_lookup_none {κ : Type} [DecidableEq κ] (m : AList (fun _ : κ => ν))
    (k : κ) (h : m.lookup k = none) : (m.erase k).entries = m.entries := by
  apply List.kerase_of_notMem_keys
  exact AList.lookup_eq_none.mp h

end InfraLens.LibMap
