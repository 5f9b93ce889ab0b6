import Mathlib.Data.Fintype.BigOperators

/-! Finite runs of a partial step function, steps restricted by a condition on
the state before them, and the invariant rule. Nothing here knows what a state
or an action is. -/
namespace InfraLens.LibRun

variable {σ α : Type*}

/-- The state after the actions `as`; `none` when some action is not enabled. -/
def run (step : σ → α → Option σ) : σ → List α → Option σ
  | s, [] => some s
  | s, a :: as => match step s a with
    | none => none
    | some t => run step t as

/-- Every step of the run meets `ok` in the state it is taken from. -/
def Along (step : σ → α → Option σ) (ok : σ → α → Prop) : σ → List α → Prop
  | _, [] => True
  | s, a :: as => ok s a ∧ ∀ t, step s a = some t → Along step ok t as

instance decidableAlong (step : σ → α → Option σ) (ok : σ → α → Prop)
    [∀ s a, Decidable (ok s a)] : (s : σ) → (as : List α) → Decidable (Along step ok s as)
  | _, [] => .isTrue trivial
  | s, a :: as =>
    match hs : step s a with
    | none => decidable_of_iff (ok s a) ⟨fun h => ⟨h, by simp [hs]⟩, And.left⟩
    | some t =>
      have := decidableAlong step ok t as
      decidable_of_iff (ok s a ∧ Along step ok t as)
        (and_congr_right fun _ => ⟨fun h u hu => by rw [hs] at hu; cases hu; exact h,
          fun h => h t hs⟩)

theorem run_cons (step : σ → α → Option σ) (s : σ) (a : α) (as : List α) (t : σ)
    (h : run step s (a :: as) = some t) :
    ∃ u, step s a = some u ∧ run step u as = some t := by
  cases hs : step s a with
  | none => simp [run, hs] at h
  | some u => exact ⟨u, rfl, by simpa [run, hs] using h⟩

theorem along_true (step : σ → α → Option σ) (s : σ) (as : List α) :
    Along step (fun _ _ => True) s as := by
  induction as generalizing s with
  | nil => trivial
  | cons a as ih => exact ⟨trivial, fun t _ => ih t⟩

theorem along_of_forall (step : σ → α → Option σ) (ok : α → Prop) (as : List α)
    (h : ∀ a ∈ as, ok a) (s : σ) : Along step (fun _ a => ok a) s as := by
  induction as generalizing s with
  | nil => trivial
  | cons a as ih =>
    exact ⟨h a List.mem_cons_self, fun t _ => ih (fun b hb => h b (List.mem_cons_of_mem a hb)) t⟩

theorem along_and_forall (step : σ → α → Option σ) (ok : σ → α → Prop) (ok' : α → Prop)
    (as : List α) (h : ∀ a ∈ as, ok' a) (s : σ) (hok : Along step ok s as) :
    Along step (fun s a => ok s a ∧ ok' a) s as := by
  induction as generalizing s with
  | nil => trivial
  | cons a as ih =>
    exact ⟨⟨hok.1, h a List.mem_cons_self⟩, fun t ht =>
      ih (fun b hb => h b (List.mem_cons_of_mem a hb)) t (hok.2 t ht)⟩

/-- What holds at the start and is kept by every step that meets the condition
holds in every state such a run reaches. -/
theorem run_invariant (step : σ → α → Option σ) (ok : σ → α → Prop) (Inv : σ → Prop)
    (hstep : ∀ s a t, Inv s → ok s a → step s a = some t → Inv t)
    (as : List α) (s t : σ) (hs : Inv s) (hok : Along step ok s as)
    (h : run step s as = some t) : Inv t := by
  induction as generalizing s with
  | nil =>
    have he : s = t := by simpa [run] using h
    exact he ▸ hs
  | cons a as ih =>
    obtain ⟨u, hu, hr⟩ := run_cons step s a as t h
    exact ih u (hstep s a u hs hok.1 hu) (hok.2 u hu) hr

/-- An invariant with an account, to which every step adds its weight. -/
theorem run_account {M : Type*} [AddMonoid M] (step : σ → α → Option σ) (ok : α → Prop)
    (weight : α → M) (Inv : σ → M → Prop)
    (hstep : ∀ s a t m, Inv s m → ok a → step s a = some t → Inv t (m + weight a))
    (as : List α) (s t : σ) (m : M) (hs : Inv s m) (hok : ∀ a ∈ as, ok a)
    (h : run step s as = some t) : Inv t (m + (as.map weight).sum) := by
  induction as generalizing s m with
  | nil =>
    have he : s = t := by simpa [run] using h
    rw [List.map_nil, List.sum_nil, add_zero]
    exact he ▸ hs
  | cons a as ih =>
    obtain ⟨u, hu, hr⟩ := run_cons step s a as t h
    rw [List.map_cons, List.sum_cons, ← add_assoc]
    exact ih u _ (hstep s a u m hs (hok a List.mem_cons_self) hu)
      (fun b hb => hok b (List.mem_cons_of_mem a hb)) hr

/-- A measure that every allowed step lowers bounds the length of the runs of allowed steps. -/
theorem run_measure (step : σ → α → Option σ) (ok : α → Prop) (μ : σ → Nat)
    (hdec : ∀ s a t, ok a → step s a = some t → μ t < μ s) (as : List α) (s t : σ)
    (hok : ∀ a ∈ as, ok a) (h : run step s as = some t) : as.length + μ t ≤ μ s := by
  induction as generalizing s with
  | nil =>
    cases h
    simp
  | cons a as ih =>
    obtain ⟨u, hu, hr⟩ := run_cons step s a as t h
    have hrest := ih u (fun b hb => hok b (List.mem_cons_of_mem a hb)) hr
    have hfirst := hdec s a u (hok a List.mem_cons_self) hu
    rw [List.length_cons]
    omega

/-- With such a measure there is a run to a state from which no allowed step leads on. -/
theorem exists_run_stuck (step : σ → α → Option σ) (ok : α → Prop) (μ : σ → Nat)
    (hdec : ∀ s a t, ok a → step s a = some t → μ t < μ s) (s : σ) :
    ∃ as t, (∀ a ∈ as, ok a) ∧ run step s as = some t ∧ ∀ a, ok a → step t a = none := by
  induction hn : μ s using Nat.strong_induction_on generalizing s with
  | _ n ih =>
    by_cases hstuck : ∀ a, ok a → step s a = none
    · exact ⟨[], s, by simp, rfl, hstuck⟩
    · obtain ⟨a, ha, hne⟩ : ∃ a, ok a ∧ step s a ≠ none := by
        simpa only [not_forall, exists_prop] using hstuck
      obtain ⟨u, hu⟩ := Option.ne_none_iff_exists'.mp hne
      obtain ⟨as, t, hok, hrun, ht⟩ := ih (μ u) (hn ▸ hdec s a u ha hu) u rfl
      exact ⟨a :: as, t, List.forall_mem_cons.mpr ⟨ha, hok⟩, by rw [run, hu]; exact hrun, ht⟩

/-- Where a step from a good state leads to a good state exactly when it meets the condition, all
states of a run are good exactly when all its steps meet it. -/
theorem run_along_iff (step : σ → α → Option σ) (ok : σ → α → Prop) (Inv Good : σ → Prop)
    (hinv : ∀ s a t, Inv s → step s a = some t → Inv t)
    (hstep : ∀ s a t, Inv s → Good s → step s a = some t → (Good t ↔ ok s a))
    (as : List α) (s t : σ) (hi : Inv s) (hs : Good s) (h : run step s as = some t) :
    (∀ k u, run step s (as.take k) = some u → Good u) ↔ Along step ok s as := by
  induction as generalizing s with
  | nil =>
    refine ⟨fun _ => trivial, fun _ k u hu => ?_⟩
    rw [List.take_nil] at hu
    cases hu
    exact hs
  | cons a as ih =>
    obtain ⟨u, hu, hrun⟩ := run_cons _ _ _ _ _ h
    have hone := hstep s a u hi hs hu
    have hiu := hinv s a u hi hu
    constructor
    · intro hall
      have hgood : Good u := hall 1 u (by simp [run, hu])
      refine ⟨hone.mp hgood, fun v hv => ?_⟩
      obtain rfl : u = v := by rw [hu] at hv; cases hv; rfl
      refine (ih u hiu hgood hrun).mp fun k w hw => hall (k + 1) w ?_
      rw [List.take_succ_cons, run, hu]
      exact hw
    · intro halong k w hw
      have hgood := hone.mpr halong.1
      cases k with
      | zero =>
        cases hw
        exact hs
      | succ k =>
        rw [List.take_succ_cons, run, hu] at hw
        exact (ih u hiu hgood hrun).mpr (halong.2 u hu) k w hw

theorem forall_succ_iff (Good ok : Nat → Prop) (len : Nat) (hstart : Good 0)
    (hstep : ∀ n < len, Good n → (Good (n + 1) ↔ ok n)) :
    (∀ n < len, Good (n + 1)) ↔ ∀ n < len, ok n := by
  constructor
  · intro hall n hn
    have hgood : Good n := by
      cases n with
      | zero => exact hstart
      | succ m => exact hall m (Nat.lt_of_succ_lt hn)
    exact (hstep n hn hgood).mp (hall n hn)
  · intro hok n hn
    induction n with
    | zero => exact (hstep 0 hn hstart).mpr (hok 0 hn)
    | succ m ih =>
      have hgood : Good (m + 1) := ih (Nat.lt_of_succ_lt hn)
      exact (hstep (m + 1) hn hgood).mpr (hok (m + 1) hn)

theorem sum_update {ι β M : Type*} [Fintype ι] [DecidableEq ι] [AddCommMonoid M]
    (f : ι → β) (i : ι) (b : β) (g : β → M) :
    (∑ j, g (Function.update f i b j)) + g (f i) = (∑ j, g (f j)) + g b := by
  have hrest : ∑ j ∈ Finset.univ.erase i, g (Function.update f i b j) =
      ∑ j ∈ Finset.univ.erase i, g (f j) := by
    apply Finset.sum_congr rfl
    intro j hj
    rw [Function.update_of_ne (Finset.ne_of_mem_erase hj)]
  rw [← Finset.add_sum_erase Finset.univ _ (Finset.mem_univ i),
    ← Finset.add_sum_erase Finset.univ (fun j => g (f j)) (Finset.mem_univ i),
    hrest, Function.update_self]
  exact add_right_comm _ _ _ |>.trans (by rw [add_comm (g b), add_right_comm])

end InfraLens.LibRun
