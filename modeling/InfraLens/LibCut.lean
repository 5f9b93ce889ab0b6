import Mathlib.Data.List.Perm.Basic
import Mathlib.Data.List.Nodup
import Mathlib.Algebra.Order.BigOperators.Group.List
import Mathlib.Algebra.Order.Ring.Nat

/-! Items taken from the front until their sizes reach a limit. Where the items come key by key,
the keys reached are cut in the same way, and two lists of keys give the same items, up to
order, if they reach the same keys and stop in the same one or stop short in none. -/
namespace InfraLens.LibCut

variable {κ β ρ : Type}

/-- The items that come before the sizes, counted from `total`, reach `n`. -/
def cut (size : β → Nat) (n : Nat) : Nat → List β → List β
  | _, [] => []
  | total, b :: bs =>
    if n ≤ total then cut size n total bs else b :: cut size n (total + size b) bs

section Front
variable (size : β → Nat) (n : Nat)

theorem cut_full (total : Nat) (bs : List β) (h : n ≤ total) : cut size n total bs = [] := by
  induction bs with
  | nil => rfl
  | cons b bs ih => rw [cut, if_pos h, ih]

theorem cut_front (total : Nat) (bs : List β) : cut size n total bs <+: bs := by
  induction bs generalizing total with
  | nil => exact List.prefix_refl []
  | cons b bs ih =>
    rw [cut]
    split
    next hfull =>
      rw [cut_full size n total bs hfull]
      exact List.nil_prefix
    next => exact (List.prefix_cons_inj b).mpr (ih (total + size b))

theorem cut_append (total : Nat) (as bs : List β) :
    cut size n total (as ++ bs) =
      cut size n total as ++ cut size n (total + (as.map size).sum) bs := by
  induction as generalizing total with
  | nil => rfl
  | cons a as ih =>
    rw [List.cons_append, cut, cut, List.map_cons, List.sum_cons]
    split
    next hfull =>
      rw [cut_full size n total _ hfull, cut_full size n total _ hfull,
        cut_full size n _ bs (by omega), List.append_nil]
    next => rw [ih, List.cons_append, Nat.add_assoc]

theorem cut_eq_self (total : Nat) (bs : List β) (hpos : ∀ b ∈ bs, 0 < size b)
    (h : ((cut size n total bs).map size).sum = (bs.map size).sum) :
    cut size n total bs = bs := by
  obtain ⟨rest, hrest⟩ := cut_front size n total bs
  cases rest with
  | nil => exact (List.append_nil _).symm.trans hrest
  | cons b rest =>
    have hb : 0 < size b := hpos b (hrest ▸ by simp)
    have hsum := congrArg (fun l => (l.map size).sum) hrest
    simp only [List.map_append, List.map_cons, List.sum_append, List.sum_cons] at hsum
    omega

theorem cut_ne_nil (total : Nat) (bs : List β) (hne : bs ≠ []) (h : total < n) :
    cut size n total bs ≠ [] := by
  cases bs with
  | nil => exact absurd rfl hne
  | cons b bs =>
    rw [cut, if_neg (by omega)]
    exact List.cons_ne_nil _ _

theorem room_of_cut (total : Nat) (bs init : List β) (b : β)
    (h : cut size n total bs = init ++ [b]) : total + (init.map size).sum < n := by
  induction bs generalizing total init with
  | nil => exact absurd h (by simp [cut])
  | cons b' bs ih =>
    rw [cut] at h
    split at h
    next hfull => exact ih total init h
    next hroom =>
      cases init with
      | nil => simpa using hroom
      | cons c init =>
        obtain ⟨rfl, hrest⟩ := List.cons.inj h
        have hlt := ih (total + size b') init hrest
        rwa [List.map_cons, List.sum_cons, ← Nat.add_assoc]

theorem cut_of_room (total : Nat) (bs : List β) (h : total + (bs.map size).sum < n) :
    cut size n total bs = bs := by
  induction bs generalizing total with
  | nil => rfl
  | cons b bs ih =>
    rw [List.map_cons, List.sum_cons, ← Nat.add_assoc] at h
    rw [cut, if_neg (by omega), ih (total + size b) h]

end Front

section Keyed
variable (size : β → Nat) (items : κ → List β) (n : Nat)

def weight (k : κ) : Nat := ((items k).map size).sum

theorem sum_flatMap (ks : List κ) :
    ((ks.flatMap items).map size).sum = (ks.map (weight size items)).sum := by
  induction ks with
  | nil => rfl
  | cons k ks ih =>
    rw [List.flatMap_cons, List.map_append, List.sum_append, ih, List.map_cons, List.sum_cons]
    rfl

theorem cut_flatMap (total : Nat) (ks : List κ) :
    cut size n total (ks.flatMap items) =
      cut size n total ((cut (weight size items) n total ks).flatMap items) := by
  induction ks generalizing total with
  | nil => rfl
  | cons k ks ih =>
    rw [cut]
    split
    next hfull => rw [cut_full size n total _ hfull, cut_full size n total _ hfull]
    next =>
      rw [List.flatMap_cons, List.flatMap_cons, cut_append, cut_append]
      exact congrArg _ (ih (total + weight size items k))

theorem cut_flatMap_last (ks init : List κ) (k : κ)
    (h : cut (weight size items) n 0 ks = init ++ [k]) :
    cut size n 0 (ks.flatMap items) = init.flatMap items ++
      cut size n (init.map (weight size items)).sum (items k) := by
  have hroom := room_of_cut _ n 0 ks init k h
  rw [← sum_flatMap] at hroom ⊢
  rw [cut_flatMap, h, List.flatMap_append, List.flatMap_singleton, cut_append,
    cut_of_room size n 0 _ hroom, Nat.zero_add]

/-- The lists of keys reach the same keys, and the same one last or all of them in full. -/
def SameReach (ks ls : List κ) : Prop :=
  let reached := cut (weight size items) n 0
  (reached ks).Perm (reached ls) ∧ ((reached ks).getLast? = (reached ls).getLast? ∨
    ∀ qs ∈ [ks, ls], cut size n 0 ((reached qs).flatMap items) = (reached qs).flatMap items)

theorem SameReach.perm {ks ls : List κ} (h : SameReach size items n ks ls) :
    (cut size n 0 (ks.flatMap items)).Perm (cut size n 0 (ls.flatMap items)) := by
  obtain ⟨hperm, hlast | hwhole⟩ := h
  · rcases List.eq_nil_or_concat' (cut (weight size items) n 0 ks) with hks | ⟨init, k, hks⟩
    · rw [hks] at hperm
      rw [cut_flatMap, cut_flatMap _ _ _ 0 ls, hks, hperm.nil_eq]
    · rw [hks, List.getLast?_concat] at hlast
      obtain ⟨init', hls⟩ := List.getLast?_eq_some_iff.mp hlast.symm
      rw [hks, hls, List.perm_append_right_iff] at hperm
      rw [cut_flatMap_last size items n ks init k hks, cut_flatMap_last size items n ls init' k hls,
        (hperm.map (weight size items)).sum_eq]
      exact (hperm.flatMap_right items).append_right _
  · rw [cut_flatMap, cut_flatMap _ _ _ 0 ls, hwhole ks (by simp), hwhole ls (by simp)]
    exact hperm.flatMap_right items

end Keyed

/-! ### Rows of the items -/

section Rows
variable [DecidableEq ρ] (items : κ → List β) (rows : β → List ρ)

def rowCount (b : β) : Nat := (rows b).length

omit [DecidableEq ρ] in
theorem length_flatMap_rows (bs : List β) :
    (bs.flatMap rows).length = (bs.map (rowCount rows)).sum := by
  rw [List.length_flatMap]
  rfl

def keyRows (k : κ) : List ρ := (items k).flatMap rows

variable (hapart : ∀ k k', k ≠ k' → ∀ r ∈ keyRows items rows k, r ∉ keyRows items rows k')

/-- How many rows of an item list are rows of the key. -/
def share (k : κ) (bs : List β) : Nat :=
  (bs.flatMap rows).countP fun r => r ∈ keyRows items rows k

theorem share_append (k : κ) (as bs : List β) :
    share items rows k (as ++ bs) = share items rows k as + share items rows k bs := by
  rw [share, List.flatMap_append, List.countP_append]
  rfl

theorem share_own (k : κ) (bs : List β) (h : ∀ b ∈ bs, b ∈ items k) :
    share items rows k bs = (bs.flatMap rows).length := by
  refine List.countP_eq_length.mpr ?_
  intro r hr
  obtain ⟨b, hb, hr⟩ := List.mem_flatMap.mp hr
  exact decide_eq_true (List.mem_flatMap.mpr ⟨b, h b hb, hr⟩)

include hapart

theorem share_other (k k' : κ) (hne : k ≠ k') (bs : List β) (h : ∀ b ∈ bs, b ∈ items k) :
    share items rows k' bs = 0 := by
  refine List.countP_eq_zero.mpr ?_
  intro r hr
  obtain ⟨b, hb, hr⟩ := List.mem_flatMap.mp hr
  have hnot := hapart k k' hne r (List.mem_flatMap.mpr ⟨b, h b hb, hr⟩)
  simpa using hnot

variable [DecidableEq κ]

theorem share_flatMap (k : κ) (ks : List κ) :
    share items rows k (ks.flatMap items) = ks.count k * (keyRows items rows k).length := by
  induction ks with
  | nil => simp [share]
  | cons k' ks ih =>
    rw [List.flatMap_cons, share_append, ih, List.count_cons]
    by_cases he : k' = k
    · subst he
      rw [share_own items rows k' (items k') (fun b hb => hb), beq_self_eq_true, if_pos rfl,
        Nat.add_mul, Nat.one_mul, Nat.add_comm]
      rfl
    · rw [share_other items rows hapart k' k he (items k') (fun b hb => hb),
        beq_false_of_ne he]
      simp

/-- What is taken of a list of keys: the rows of the keys before the last one reached, and some
rows of that one. -/
theorem share_cut (n : Nat) (ks init : List κ) (k : κ)
    (h : cut (weight (rowCount rows) items) n 0 ks = init ++ [k]) (hitems : items k ≠ [])
    (hrows : ∀ b ∈ items k, rows b ≠ []) :
    ∃ taken, 0 < taken ∧ taken ≤ (keyRows items rows k).length ∧
      (taken = (keyRows items rows k).length → cut (rowCount rows) n 0
        ((init ++ [k]).flatMap items) = (init ++ [k]).flatMap items) ∧
      ∀ k', share items rows k' (cut (rowCount rows) n 0 (ks.flatMap items)) =
        init.count k' * (keyRows items rows k').length + if k = k' then taken else 0 := by
  let last := cut (rowCount rows) n (init.map (weight (rowCount rows) items)).sum (items k)
  have hfront : last <+: items k := cut_front _ _ _ _
  have hcut := cut_flatMap_last (rowCount rows) items n ks init k h
  refine ⟨(last.flatMap rows).length, ?_, ?_, ?_, ?_⟩
  · have hroom := room_of_cut _ n 0 ks init k h
    have hne : last ≠ [] := cut_ne_nil _ n _ _ hitems (by omega)
    obtain ⟨b, hb⟩ := List.exists_mem_of_ne_nil last hne
    obtain ⟨r, hr⟩ := List.exists_mem_of_ne_nil _ (hrows b (hfront.subset hb))
    exact List.length_pos_of_mem (List.mem_flatMap.mpr ⟨b, hb, hr⟩)
  · obtain ⟨rest, hrest⟩ := hfront
    rw [keyRows, ← hrest, List.flatMap_append, List.length_append]
    exact Nat.le_add_right _ _
  · intro hall
    have hwhole : last = items k := by
      refine cut_eq_self _ n _ _ (fun b hb => List.length_pos_iff.mpr (hrows b hb)) ?_
      rw [← length_flatMap_rows, ← length_flatMap_rows]
      exact hall
    rw [← h, ← cut_flatMap, hcut, h, List.flatMap_append, List.flatMap_singleton]
    exact congrArg _ hwhole
  · intro k'
    have hsub : ∀ b ∈ last, b ∈ items k := fun b hb => hfront.subset hb
    rw [hcut, share_append, share_flatMap items rows hapart]
    split
    next he =>
      subst he
      exact congrArg _ (share_own items rows k last hsub)
    next hne => exact congrArg _ (share_other items rows hapart k k' hne last hsub)

end Rows

section Shares

theorem zero_of_mul_add {c r x y : Nat} (h : c * r + x = y) (hx : 0 < x) (hy : y ≤ r) : c = 0 := by
  cases c with
  | zero => rfl
  | succ c =>
    rw [Nat.succ_mul] at h
    omega

theorem one_of_mul {c r y : Nat} (h : c * r = y) (hy : 0 < y) (hle : y ≤ r) : c = 1 := by
  cases c with
  | zero => omega
  | succ c =>
    have hc := zero_of_mul_add ((Nat.succ_mul c r).symm.trans h) (by omega) hle
    omega

variable [DecidableEq κ] (R : κ → Nat) {init init' : List κ} {k l : κ} {taken taken' : Nat}
  (hnodup : (init' ++ [l]).Nodup) (ht : 0 < taken) (ht' : 0 < taken') (hle' : taken' ≤ R l)
  (h : ∀ q, init.count q * R q + (if k = q then taken else 0) =
    init'.count q * R q + if l = q then taken' else 0)

include hnodup

theorem count_last_eq_zero : init'.count l = 0 := by
  have hl := List.nodup_iff_count_le_one.mp hnodup l
  rw [List.count_append, List.count_singleton_self] at hl
  omega

include ht h

theorem full_of_shares (hne : k ≠ l) :
    init.count k = 0 ∧ init'.count k = 1 ∧ taken = R k := by
  have hk := h k
  rw [if_pos rfl, if_neg hne.symm, Nat.add_zero] at hk
  have honce := List.nodup_iff_count_le_one.mp hnodup k
  rw [List.count_append] at honce
  have hcount : init'.count k = 1 := by
    by_contra hnot
    have hzero : init'.count k = 0 := by omega
    rw [hzero] at hk
    omega
  rw [hcount, Nat.one_mul] at hk
  have hfirst := zero_of_mul_add hk ht (Nat.le_refl _)
  rw [hfirst] at hk
  omega

include ht' hle'

theorem perm_of_shares (hR : ∀ q ∈ (init ++ [k]) ++ (init' ++ [l]), 0 < R q) :
    (init ++ [k]).Perm (init' ++ [l]) ∧ (k = l ∨ taken = R k ∧ taken' = R l) := by
  have hzero := count_last_eq_zero hnodup
  have hl := h l
  rw [hzero, if_pos rfl, Nat.zero_mul, Nat.zero_add] at hl
  have hother : ∀ q, q ≠ k → q ≠ l → init.count q = init'.count q := by
    intro q hqk hql
    have hq := h q
    rw [if_neg hqk.symm, if_neg hql.symm, Nat.add_zero, Nat.add_zero] at hq
    by_cases hmem : q ∈ (init ++ [k]) ++ (init' ++ [l])
    · exact Nat.eq_of_mul_eq_mul_right (hR q hmem) hq
    · simp only [List.mem_append, not_or] at hmem
      rw [List.count_eq_zero_of_not_mem hmem.1.1, List.count_eq_zero_of_not_mem hmem.2.1]
  by_cases hkl : k = l
  · subst hkl
    rw [if_pos rfl] at hl
    refine ⟨(List.perm_iff_count.mpr fun q => ?_).append_right [k], Or.inl rfl⟩
    by_cases hq : q = k
    · rw [hq, hzero, zero_of_mul_add hl ht hle']
    · exact hother q hq hq
  · obtain ⟨hk, hk', hfull⟩ := full_of_shares R hnodup ht h hkl
    rw [if_neg hkl, Nat.add_zero] at hl
    have hone := one_of_mul hl ht' hle'
    rw [hone, Nat.one_mul] at hl
    refine ⟨List.perm_iff_count.mpr fun q => ?_, Or.inr ⟨hfull, hl.symm⟩⟩
    simp only [List.count_append, List.count_singleton]
    by_cases hqk : q = k
    · subst hqk
      simp [hk, hk', Ne.symm hkl]
    · by_cases hql : q = l
      · subst hql
        simp [hone, hzero, hkl]
      · simp [hother q hqk hql, Ne.symm hqk, Ne.symm hql]

end Shares

section Reach
variable [DecidableEq κ] (items : κ → List β) (rows : β → List ρ) (n : Nat)
  (hapart : ∀ k k', k ≠ k' → ∀ r ∈ keyRows items rows k, r ∉ keyRows items rows k')
  (hrows : ∀ k, ∀ b ∈ items k, rows b ≠ [])

include hapart hrows

theorem reached_eq_nil (ks : List κ) (hitems : ∀ k ∈ ks, items k ≠ [])
    (h : (cut (rowCount rows) n 0 (ks.flatMap items)).flatMap rows = []) :
    cut (weight (rowCount rows) items) n 0 ks = [] := by
  classical
  rcases List.eq_nil_or_concat' (cut (weight (rowCount rows) items) n 0 ks) with
    hks | ⟨init, k, hks⟩
  · exact hks
  · have hfront := cut_front (weight (rowCount rows) items) n 0 ks
    rw [hks] at hfront
    obtain ⟨taken, hpos, _, _, hshare⟩ := share_cut items rows hapart n ks init k hks
      (hitems k (hfront.subset (by simp))) (hrows k)
    have hzero := hshare k
    rw [share, h, if_pos rfl, List.countP_nil] at hzero
    omega

/-- Where different keys have different rows, the same rows are taken only if the same keys are
reached. -/
theorem sameReach_of_rows (ks ls : List κ) (hitems : ∀ k ∈ ks ++ ls, items k ≠ [])
    (hnodup : ls.Nodup)
    (h : ((cut (rowCount rows) n 0 (ks.flatMap items)).flatMap rows).Perm
      ((cut (rowCount rows) n 0 (ls.flatMap items)).flatMap rows)) :
    SameReach (rowCount rows) items n ks ls := by
  classical
  have hks := fun k hk => hitems k (List.mem_append_left ls hk)
  have hls := fun k hk => hitems k (List.mem_append_right ks hk)
  have hfront := cut_front (weight (rowCount rows) items) n 0 ks
  have hfront' := cut_front (weight (rowCount rows) items) n 0 ls
  rcases List.eq_nil_or_concat' (cut (weight (rowCount rows) items) n 0 ks) with
    hcut | ⟨init, k, hcut⟩
  · rw [cut_flatMap, hcut] at h
    have hnil := reached_eq_nil items rows n hapart hrows ls hls h.nil_eq.symm
    exact ⟨by rw [hcut, hnil], Or.inl (by rw [hcut, hnil])⟩
  rcases List.eq_nil_or_concat' (cut (weight (rowCount rows) items) n 0 ls) with
    hcut' | ⟨init', l, hcut'⟩
  · rw [cut_flatMap _ _ _ 0 ls, hcut'] at h
    have hnil := reached_eq_nil items rows n hapart hrows ks hks h.eq_nil
    exact ⟨by rw [hcut', hnil], Or.inl (by rw [hcut', hnil])⟩
  rw [hcut] at hfront
  rw [hcut'] at hfront'
  obtain ⟨taken, hpos, _, hwhole, hshare⟩ := share_cut items rows hapart n ks init k hcut
    (hks k (hfront.subset (by simp))) (hrows k)
  obtain ⟨taken', hpos', hle', hwhole', hshare'⟩ := share_cut items rows hapart n ls init' l hcut'
    (hls l (hfront'.subset (by simp))) (hrows l)
  have hsome : ∀ q ∈ (init ++ [k]) ++ (init' ++ [l]), 0 < (keyRows items rows q).length := by
    intro q hq
    have hne : items q ≠ [] := (List.mem_append.mp hq).elim (fun hm => hks q (hfront.subset hm))
      fun hm => hls q (hfront'.subset hm)
    obtain ⟨b, hb⟩ := List.exists_mem_of_ne_nil _ hne
    obtain ⟨r, hr⟩ := List.exists_mem_of_ne_nil _ (hrows q b hb)
    exact List.length_pos_of_mem (List.mem_flatMap.mpr ⟨b, hb, hr⟩)
  obtain ⟨hperm, hlast⟩ := perm_of_shares (fun q => (keyRows items rows q).length)
    (hfront'.sublist.nodup hnodup) hpos hpos' hle'
    (fun q => (hshare q).symm.trans ((h.countP_eq _).trans (hshare' q))) hsome
  refine ⟨by rw [hcut, hcut']; exact hperm, ?_⟩
  obtain rfl | ⟨hfull, hfull'⟩ := hlast
  · exact Or.inl (by rw [hcut, hcut', List.getLast?_concat, List.getLast?_concat])
  · refine Or.inr (List.forall_mem_cons.mpr ⟨?_, List.forall_mem_singleton.mpr ?_⟩)
    · rw [hcut]
      exact hwhole hfull
    · rw [hcut']
      exact hwhole' hfull'

end Reach

end InfraLens.LibCut
