import Mathlib.Data.Multiset.Bind
import Mathlib.Data.Multiset.UnionInter
import Mathlib.Data.Set.Insert

/-! A ledger of containers in circulation: items are put into a container that is held,
and a container leaves circulation empty or by being emptied into the archive. A
container has an identity, under which its contents are kept, and a label. -/
namespace InfraLens.LibLedger

variable {κ ν τ β : Type*}

structure Ledger (κ ν τ β : Type*) where
  issued : Set ν
  held : Multiset κ
  spent : Multiset ν
  contents : ν → Multiset β
  archive : Multiset (τ × β)
  written : Multiset (τ × β)

section Rules
variable (id : κ → ν) (label : κ → τ)

def Ledger.ids (l : Ledger κ ν τ β) : Multiset ν := l.held.map id + l.spent

/-- What a container holds, each item with the container's label. -/
def Ledger.inside (l : Ledger κ ν τ β) (c : κ) : Multiset (τ × β) :=
  (l.contents (id c)).map (Prod.mk (label c))

inductive Step (l l' : Ledger κ ν τ β) : Prop
  | alloc (c : κ) (fresh : id c ∉ l.issued) (issued : l'.issued = insert (id c) l.issued)
      (held : l'.held = c ::ₘ l.held) (spent : l'.spent = l.spent)
      (empty : l'.contents (id c) = 0) (same : ∀ n ∈ l.issued, l'.contents n = l.contents n)
      (archive : l'.archive = l.archive) (written : l'.written = l.written)
  | put (c : κ) (b : Multiset β) (mem : c ∈ l.held)
      (into : l'.contents (id c) = l.contents (id c) + b)
      (same : ∀ n, n ≠ id c → l'.contents n = l.contents n)
      (issued : l'.issued = l.issued) (held : l'.held = l.held) (spent : l'.spent = l.spent)
      (archive : l'.archive = l.archive)
      (written : l'.written = l.written + b.map (Prod.mk (label c)))
  | drain (c : κ) (issued : l'.issued = l.issued) (held : l.held = c ::ₘ l'.held)
      (spent : l'.spent = id c ::ₘ l.spent) (same : l'.contents = l.contents)
      (archive : l'.archive = l.archive + l.inside id label c) (written : l'.written = l.written)
  | drop (c : κ) (empty : l.contents (id c) = 0) (issued : l'.issued = l.issued)
      (held : l.held = c ::ₘ l'.held) (spent : l'.spent = l.spent)
      (same : l'.contents = l.contents) (archive : l'.archive = l.archive)
      (written : l'.written = l.written)
  | keep (same : l' = l)

/-- No container is held twice, nor held after it was spent; one that is neither is
empty; and what was written is in the held containers or in the archive. -/
structure Balanced (l : Ledger κ ν τ β) : Prop where
  nodup : (l.ids id).Nodup
  issued : ∀ n ∈ l.ids id, n ∈ l.issued
  tracked : ∀ n ∈ l.issued, l.contents n ≠ 0 → n ∈ l.ids id
  balance : l.held.bind (l.inside id label) + l.archive = l.written

end Rules

theorem bind_congr_of_mem (s : Multiset κ) (f g : κ → Multiset β) (h : ∀ c ∈ s, f c = g c) :
    s.bind f = s.bind g := by
  rw [Multiset.bind, Multiset.bind, Multiset.map_congr rfl h]

theorem bind_put (id : κ → ν) (s : Multiset κ) (f g : κ → Multiset β) (c : κ) (b : Multiset β)
    (hnd : (s.map id).Nodup) (hc : c ∈ s) (hput : g c = f c + b)
    (hsame : ∀ d ∈ s, id d ≠ id c → g d = f d) : s.bind g = s.bind f + b := by
  obtain ⟨rest, rfl⟩ := Multiset.exists_cons_of_mem hc
  have hne : ∀ d ∈ rest, id d ≠ id c := by
    intro d hd he
    rw [Multiset.map_cons, Multiset.nodup_cons] at hnd
    exact hnd.1 (he ▸ Multiset.mem_map_of_mem id hd)
  have hrest : rest.bind g = rest.bind f :=
    bind_congr_of_mem rest g f fun d hd => hsame d (Multiset.mem_cons_of_mem hd) (hne d hd)
  rw [Multiset.cons_bind, Multiset.cons_bind, hrest, hput, add_right_comm]

variable (id : κ → ν) (label : κ → τ) (l l' : Ledger κ ν τ β)

theorem balanced_alloc (h : Balanced id label l) (c : κ) (fresh : id c ∉ l.issued)
    (issued : l'.issued = insert (id c) l.issued) (held : l'.held = c ::ₘ l.held)
    (spent : l'.spent = l.spent) (empty : l'.contents (id c) = 0)
    (same : ∀ n ∈ l.issued, l'.contents n = l.contents n)
    (archive : l'.archive = l.archive) (written : l'.written = l.written) :
    Balanced id label l' := by
  have hids : l'.ids id = id c ::ₘ l.ids id := by
    rw [Ledger.ids, held, spent, Multiset.map_cons, Multiset.cons_add, Ledger.ids]
  refine ⟨?_, ?_, ?_, ?_⟩
  · rw [hids]
    exact Multiset.nodup_cons.mpr ⟨fun hm => fresh (h.issued _ hm), h.nodup⟩
  · intro n hn
    rw [hids, Multiset.mem_cons] at hn
    rw [issued]
    exact hn.imp_right (h.issued n)
  · intro n hn hne
    rw [hids, Multiset.mem_cons]
    rw [issued] at hn
    cases hn with
    | inl he => exact Or.inl he
    | inr hn => exact Or.inr (h.tracked n hn (same n hn ▸ hne))
  · have hrest : l.held.bind (l'.inside id label) = l.held.bind (l.inside id label) := by
      apply bind_congr_of_mem
      intro d hd
      have hm : id d ∈ l.ids id := Multiset.mem_add.mpr (Or.inl (Multiset.mem_map_of_mem id hd))
      rw [Ledger.inside, Ledger.inside, same _ (h.issued _ hm)]
    rw [held, Multiset.cons_bind, hrest, archive, written, ← h.balance, Ledger.inside, empty,
      Multiset.map_zero, zero_add]

theorem balanced_put (h : Balanced id label l) (c : κ) (b : Multiset β) (mem : c ∈ l.held)
    (into : l'.contents (id c) = l.contents (id c) + b)
    (same : ∀ n, n ≠ id c → l'.contents n = l.contents n) (issued : l'.issued = l.issued)
    (held : l'.held = l.held) (spent : l'.spent = l.spent) (archive : l'.archive = l.archive)
    (written : l'.written = l.written + b.map (Prod.mk (label c))) : Balanced id label l' := by
  have hids : l'.ids id = l.ids id := by rw [Ledger.ids, held, spent, Ledger.ids]
  refine ⟨hids ▸ h.nodup, hids ▸ issued ▸ h.issued, ?_, ?_⟩
  · intro n hn hne
    rw [hids]
    by_cases he : n = id c
    · exact he ▸ Multiset.mem_add.mpr (Or.inl (Multiset.mem_map_of_mem id mem))
    · exact h.tracked n (issued ▸ hn) (same n he ▸ hne)
  · have hheld : (l.held.map id).Nodup :=
      Multiset.nodup_of_le (Multiset.le_add_right _ _) h.nodup
    have hput : l'.inside id label c = l.inside id label c + b.map (Prod.mk (label c)) := by
      rw [Ledger.inside, into, Multiset.map_add, Ledger.inside]
    have hsame : ∀ d ∈ l.held, id d ≠ id c → l'.inside id label d = l.inside id label d := by
      intro d _ hd
      rw [Ledger.inside, same _ hd, Ledger.inside]
    rw [held, archive, written, bind_put id _ _ _ c _ hheld mem hput hsame, ← h.balance,
      add_right_comm]

theorem balanced_drain (h : Balanced id label l) (c : κ) (issued : l'.issued = l.issued)
    (held : l.held = c ::ₘ l'.held) (spent : l'.spent = id c ::ₘ l.spent)
    (same : l'.contents = l.contents) (archive : l'.archive = l.archive + l.inside id label c)
    (written : l'.written = l.written) : Balanced id label l' := by
  have hids : l'.ids id = l.ids id := by
    rw [Ledger.ids, spent, Multiset.add_cons, Ledger.ids, held, Multiset.map_cons,
      Multiset.cons_add]
  have hin : l'.inside id label = l.inside id label := by
    funext d
    rw [Ledger.inside, same, Ledger.inside]
  refine ⟨hids ▸ h.nodup, hids ▸ issued ▸ h.issued, hids ▸ issued ▸ same ▸ h.tracked, ?_⟩
  rw [hin, archive, written, ← h.balance, held, Multiset.cons_bind, add_comm (l.inside id label c),
    add_assoc, add_comm (l.inside id label c)]

theorem balanced_drop (h : Balanced id label l) (c : κ) (empty : l.contents (id c) = 0)
    (issued : l'.issued = l.issued) (held : l.held = c ::ₘ l'.held)
    (spent : l'.spent = l.spent) (same : l'.contents = l.contents)
    (archive : l'.archive = l.archive) (written : l'.written = l.written) :
    Balanced id label l' := by
  have hids : l.ids id = id c ::ₘ l'.ids id := by
    rw [Ledger.ids, held, Multiset.map_cons, Multiset.cons_add, ← spent, Ledger.ids]
  have hin : l'.inside id label = l.inside id label := by
    funext d
    rw [Ledger.inside, same, Ledger.inside]
  have hnd := h.nodup
  rw [hids] at hnd
  refine ⟨(Multiset.nodup_cons.mp hnd).2, ?_, ?_, ?_⟩
  · intro n hn
    exact issued ▸ h.issued n (hids ▸ Multiset.mem_cons_of_mem hn)
  · intro n hn hne
    have hm := h.tracked n (issued ▸ hn) (same ▸ hne)
    rw [hids, Multiset.mem_cons] at hm
    exact hm.resolve_left fun he => hne (by rw [same, he, empty])
  · rw [hin, archive, written, ← h.balance, held, Multiset.cons_bind, Ledger.inside, empty,
      Multiset.map_zero, zero_add]

theorem balanced_step (h : Balanced id label l) (hs : Step id label l l') :
    Balanced id label l' := by
  cases hs with
  | alloc c fresh issued held spent empty same archive written =>
    exact balanced_alloc id label l l' h c fresh issued held spent empty same archive written
  | put c b mem into same issued held spent archive written =>
    exact balanced_put id label l l' h c b mem into same issued held spent archive written
  | drain c issued held spent same archive written =>
    exact balanced_drain id label l l' h c issued held spent same archive written
  | drop c empty issued held spent same archive written =>
    exact balanced_drop id label l l' h c empty issued held spent same archive written
  | keep same => exact same ▸ h

theorem not_spent_of_held (h : Balanced id label l) (c : κ) (hc : c ∈ l.held) :
    id c ∉ l.spent := by
  intro hs
  exact Multiset.disjoint_left.mp (Multiset.nodup_add.mp h.nodup).2.2
    (Multiset.mem_map_of_mem id hc) hs

end InfraLens.LibLedger
