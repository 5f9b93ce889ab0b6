import InfraLens.RowRefinement
import InfraLens.Ungrouped

/-! The aggregates of one group (executor/aggregate.rs): all of them share one record and one
counter, so a value given to one aggregate can show in another. -/
namespace InfraLens.Query
open Schema Arrow LibExcept

/-! ### The loop over the rows of a group -/

section Loop
variable {F α : Type} [FloatOps F]

def groupStep (aggregates : List (AggExpr F)) (row : Option (Expr F) → Option F)
    (s : GroupState F) : GroupState F :=
  let s := aggregates.foldl (fun s a => s.accumulate a.func (row a.arg)) s
  { s with count := s.count + 1 }

def groupRun (aggregates : List (AggExpr F)) (rows : List (Option (Expr F) → Option F)) :
    GroupState F :=
  rows.foldl (fun s row => groupStep aggregates row s) GroupState.default

theorem accumulateRow_eq (aggregates : List (AggExpr F)) (b : RecordBatch F) (groups : Groups F)
    (row : Nat) :
    accumulateRow aggregates b groups row = (extractGroupKey b row).map fun key =>
      updateGroup key (groupStep aggregates (extractF64 b row)) groups := by
  rw [accumulateRow]
  cases extractGroupKey b row <;> rfl

omit [FloatOps F] in
def given (funcs : List String) (aggregates : List (AggExpr F))
    (row : Option (Expr F) → Option α) : List α :=
  aggregates.filterMap fun a => if a.func ∈ funcs then row a.arg else none

omit [FloatOps F] in
theorem given_cons (funcs : List String) (a : AggExpr F) (aggregates : List (AggExpr F))
    (row : Option (Expr F) → Option α) :
    given funcs (a :: aggregates) row =
      (if a.func ∈ funcs then row a.arg else none).toList ++ given funcs aggregates row := by
  rw [given, List.filterMap_cons]
  cases (if a.func ∈ funcs then row a.arg else none) <;> rfl

theorem accumulate_count (s : GroupState F) (func : String) (val : Option F) :
    (s.accumulate func val).count = s.count := by
  unfold GroupState.accumulate
  split
  · rfl
  · split
    · rfl
    · rfl
    · split <;> rfl
    · split <;> rfl
    · rfl

/-- A field of the record that the aggregates with these functions update, in the first row of
the group and in later ones. -/
structure Updated (funcs : List String) (field : GroupState F → F) (first later : F → F → F) :
    Prop where
  accumulate : ∀ (s : GroupState F) func val, field (s.accumulate func val) =
    (if func ∈ funcs then val else none).toList.foldl (if s.count = 0 then first else later)
      (field s)
  counted : ∀ (s : GroupState F) n, field { s with count := n } = field s

theorem updated_sum :
    Updated (F := F) ["sum", "avg"] GroupState.sum FloatOps.add FloatOps.add where
  accumulate s func val := by
    rw [ite_self]
    unfold GroupState.accumulate
    split
    · simp
    · split
      · rfl
      · rfl
      · split <;> rfl
      · split <;> rfl
      next hsum havg _ _ =>
        have hother : func ∉ ["sum", "avg"] := by
          simp only [List.mem_cons, List.not_mem_nil, or_false]
          exact fun h => h.elim hsum havg
        rw [if_neg hother]
        rfl
  counted s n := rfl

theorem updated_min :
    Updated (F := F) ["min"] GroupState.min (fun _ v => v)
      (fun acc v => if floatLt v acc then v else acc) where
  accumulate s func val := by
    unfold GroupState.accumulate
    split
    · simp
    · split
      · rfl
      · rfl
      · by_cases hcount : s.count = 0
        · simp [hcount]
        · simp only [hcount, decide_false, Bool.or_false, if_false]
          exact apply_ite GroupState.min _ _ _
      · split <;> rfl
      next hmin _ =>
        have hother : func ∉ ["min"] := fun h => hmin (List.mem_singleton.mp h)
        rw [if_neg hother]
        rfl
  counted s n := rfl

theorem updated_max :
    Updated (F := F) ["max"] GroupState.max (fun _ v => v)
      (fun acc v => if floatLt acc v then v else acc) where
  accumulate s func val := by
    unfold GroupState.accumulate
    split
    · simp
    · split
      · rfl
      · rfl
      · split <;> rfl
      · by_cases hcount : s.count = 0
        · simp [hcount]
        · simp only [hcount, decide_false, Bool.or_false, if_false]
          exact apply_ite GroupState.max _ _ _
      next hmax =>
        have hother : func ∉ ["max"] := fun h => hmax (List.mem_singleton.mp h)
        rw [if_neg hother]
        rfl
  counted s n := rfl

section Field
variable {funcs : List String} {field : GroupState F → F} {first later : F → F → F}

theorem foldl_accumulate (h : Updated funcs field first later) (aggregates : List (AggExpr F))
    (row : Option (Expr F) → Option F) (s : GroupState F) :
    (aggregates.foldl (fun s a => s.accumulate a.func (row a.arg)) s).count = s.count ∧
      field (aggregates.foldl (fun s a => s.accumulate a.func (row a.arg)) s) =
        (given funcs aggregates row).foldl (if s.count = 0 then first else later) (field s) := by
  induction aggregates generalizing s with
  | nil => exact ⟨rfl, rfl⟩
  | cons a aggregates ih =>
    obtain ⟨hcount, hfield⟩ := ih (s.accumulate a.func (row a.arg))
    rw [accumulate_count] at hcount hfield
    refine ⟨hcount, ?_⟩
    rw [List.foldl_cons, hfield, h.accumulate, given_cons, List.foldl_append]

theorem groupStep_field (h : Updated funcs field first later) (aggregates : List (AggExpr F))
    (row : Option (Expr F) → Option F) (s : GroupState F) :
    (groupStep aggregates row s).count = s.count + 1 ∧
      field (groupStep aggregates row s) =
        (given funcs aggregates row).foldl (if s.count = 0 then first else later) (field s) := by
  obtain ⟨hcount, hfield⟩ := foldl_accumulate h aggregates row s
  refine ⟨congrArg (· + 1) hcount, ?_⟩
  rw [groupStep, h.counted, hfield]

theorem foldl_groupStep (h : Updated funcs field first later) (aggregates : List (AggExpr F))
    (rows : List (Option (Expr F) → Option F)) (s : GroupState F) (hs : 0 < s.count) :
    (rows.foldl (fun s row => groupStep aggregates row s) s).count = s.count + rows.length ∧
      field (rows.foldl (fun s row => groupStep aggregates row s) s) =
        (rows.flatMap (given funcs aggregates)).foldl later (field s) := by
  induction rows generalizing s with
  | nil => exact ⟨rfl, rfl⟩
  | cons row rows ih =>
    obtain ⟨hcount, hfield⟩ := groupStep_field h aggregates row s
    obtain ⟨hcount', hfield'⟩ := ih (groupStep aggregates row s) (by omega)
    rw [List.foldl_cons, hcount', hfield', hfield, hcount, if_neg (by omega), List.flatMap_cons,
      List.foldl_append, List.length_cons]
    exact ⟨by omega, rfl⟩

theorem groupRun_field (h : Updated funcs field first later) (aggregates : List (AggExpr F))
    (row : Option (Expr F) → Option F) (rows : List (Option (Expr F) → Option F)) :
    (groupRun aggregates (row :: rows)).count = (row :: rows).length ∧
      field (groupRun aggregates (row :: rows)) =
        (rows.flatMap (given funcs aggregates)).foldl later
          ((given funcs aggregates row).foldl first (field GroupState.default)) := by
  obtain ⟨hcount, hfield⟩ := groupStep_field h aggregates row GroupState.default
  obtain ⟨hcount', hfield'⟩ :=
    foldl_groupStep h aggregates rows (groupStep aggregates row GroupState.default) (by omega)
  rw [groupRun, List.foldl_cons, hcount', hfield', hfield, hcount, List.length_cons]
  exact ⟨by rw [Nat.add_comm]; rfl, rfl⟩

end Field

end Loop

/-! ### What the aggregates should be, and what they are -/

/-- A row of exact numbers, by argument; none where the argument is missing. -/
abbrev NumberRow := Option (Expr Exact) → Option Rat

def valueRow (row : NumberRow) : Option (Expr Exact) → Option Exact := fun arg => (row arg).map .num

/-- The value of one aggregate over the present values of its own argument. -/
def RightInGroup (rows : List NumberRow) (a : AggExpr Exact) (v : Exact) : Prop :=
  let xs := rows.filterMap fun row => row a.arg
  match a.func with
  | "count" => v = .num rows.length
  | "sum" => v = .num xs.sum
  | "avg" => xs ≠ [] → v = .num (xs.sum / xs.length)
  | "min" => xs ≠ [] → ∃ m, v = .num m ∧ IsLeast {x | x ∈ xs} m
  | "max" => xs ≠ [] → ∃ m, v = .num m ∧ IsGreatest {x | x ∈ xs} m
  | _ => True

/-- The values added up: those of all the sums and averages. -/
def summed (aggregates : List (AggExpr Exact)) (rows : List NumberRow) : List Rat :=
  rows.flatMap (given ["sum", "avg"] aggregates)

/-- The values compared for a minimum (or a maximum): the last one that the first row gives to
such an aggregate, or 0 if it gives none, and all those of the later rows. -/
def compared (func : String) (aggregates : List (AggExpr Exact)) : List NumberRow → List Rat
  | [] => []
  | row :: rows =>
    (given [func] aggregates row).getLastD 0 :: rows.flatMap (given [func] aggregates)

/-- What the record is shared with does not show in the aggregate. -/
def KeptApart (aggregates : List (AggExpr Exact)) (rows : List NumberRow) (a : AggExpr Exact) :
    Prop :=
  let xs := rows.filterMap fun row => row a.arg
  match a.func with
  | "sum" => (summed aggregates rows).sum = xs.sum
  | "avg" => xs ≠ [] → (summed aggregates rows).sum / rows.length = xs.sum / xs.length
  | "min" =>
    xs ≠ [] → ∃ m, IsLeast {x | x ∈ compared "min" aggregates rows} m ∧ IsLeast {x | x ∈ xs} m
  | "max" =>
    xs ≠ [] →
      ∃ m, IsGreatest {x | x ∈ compared "max" aggregates rows} m ∧ IsGreatest {x | x ∈ xs} m
  | _ => True

theorem given_valueRow (funcs : List String) (aggregates : List (AggExpr Exact))
    (row : NumberRow) :
    given funcs aggregates (valueRow row) = (given funcs aggregates row).map .num := by
  rw [given, given, List.map_filterMap]
  apply List.filterMap_congr
  intro a _
  split <;> rfl

theorem flatMap_given (funcs : List String) (aggregates : List (AggExpr Exact))
    (rows : List NumberRow) :
    (rows.map valueRow).flatMap (given funcs aggregates) =
      (rows.flatMap (given funcs aggregates)).map .num := by
  rw [List.flatMap_map, List.map_flatMap]
  exact List.flatMap_congr fun row _ => given_valueRow funcs aggregates row

theorem foldl_add_num (qs : List Rat) (a : Rat) :
    (qs.map Exact.num).foldl FloatOps.add (.num a) = .num (a + qs.sum) :=
  (foldl_add_iff _ a _).mpr ⟨qs, rfl, rfl⟩

theorem foldl_last (qs : List Rat) (a : Rat) :
    (qs.map Exact.num).foldl (fun _ v => v) (.num a) = .num (qs.getLastD a) := by
  induction qs generalizing a with
  | nil => rfl
  | cons q qs ih => rw [List.map_cons, List.foldl_cons, ih, List.getLastD_cons]

theorem run_count (aggregates : List (AggExpr Exact)) (rows : List NumberRow) (h : rows ≠ []) :
    (groupRun aggregates (rows.map valueRow)).count = rows.length := by
  cases rows with
  | nil => exact absurd rfl h
  | cons row rows =>
    rw [List.map_cons, (groupRun_field updated_sum aggregates _ _).1]
    simp

theorem run_sum (aggregates : List (AggExpr Exact)) (rows : List NumberRow) (h : rows ≠ []) :
    (groupRun aggregates (rows.map valueRow)).sum = .num (summed aggregates rows).sum := by
  cases rows with
  | nil => exact absurd rfl h
  | cons row rows =>
    rw [List.map_cons, (groupRun_field updated_sum aggregates _ _).2, given_valueRow,
      flatMap_given]
    change List.foldl _ (List.foldl _ (Exact.num 0) _) _ = _
    rw [foldl_add_num, foldl_add_num, summed, List.flatMap_cons, List.sum_append, zero_add]

theorem run_min (aggregates : List (AggExpr Exact)) (rows : List NumberRow) (h : rows ≠ [])
    (m : Rat) :
    (groupRun aggregates (rows.map valueRow)).min = .num m ↔
      IsLeast {x | x ∈ compared "min" aggregates rows} m := by
  cases rows with
  | nil => exact absurd rfl h
  | cons row rows =>
    rw [List.map_cons, (groupRun_field updated_min aggregates _ _).2, given_valueRow,
      flatMap_given]
    change List.foldl _ (List.foldl _ (Exact.num 0) _) _ = _ ↔ _
    rw [foldl_last, foldl_best_iff comparable_floatLt _ (by simp) _ _ (by simp), ← best_num_iff]
    rfl

theorem run_max (aggregates : List (AggExpr Exact)) (rows : List NumberRow) (h : rows ≠ [])
    (m : Rat) :
    (groupRun aggregates (rows.map valueRow)).max = .num m ↔
      IsGreatest {x | x ∈ compared "max" aggregates rows} m := by
  cases rows with
  | nil => exact absurd rfl h
  | cons row rows =>
    rw [List.map_cons, (groupRun_field updated_max aggregates _ _).2, given_valueRow,
      flatMap_given]
    change List.foldl _ (List.foldl _ (Exact.num 0) _) _ = _ ↔ _
    rw [foldl_last, foldl_best_iff comparable_floatGt _ (by simp) _ _ (by simp), ← best_num_iff']
    rfl

/-- An aggregate of a group has its own value exactly when the record it shares with the others
keeps them apart; a count always has. -/
theorem group_aggregates_iff (aggregates : List (AggExpr Exact))
    (hfuncs : ∀ a ∈ aggregates, a.func ∈ aggFns) (rows : List NumberRow) (hrows : rows ≠ []) :
    ∀ a ∈ aggregates,
      (RightInGroup rows a ((groupRun aggregates (rows.map valueRow)).finalize a.func) ↔
        KeptApart aggregates rows a) := by
  intro a ha
  have hcount := run_count aggregates rows hrows
  have hsum := run_sum aggregates rows hrows
  have hfunc := hfuncs a ha
  obtain ⟨func, arg, aliasName⟩ := a
  simp only [aggFns, List.mem_cons, List.not_mem_nil, or_false] at hfunc
  obtain rfl | rfl | rfl | rfl | rfl := hfunc
  · refine iff_of_true ?_ trivial
    change Exact.num _ = Exact.num _
    rw [hcount]
    rfl
  · change GroupState.sum _ = _ ↔ _
    rw [hsum]
    exact iff_of_eq (Exact.num.injEq _ _)
  · have havg : (groupRun aggregates (rows.map valueRow)).finalize "avg" =
        .num ((summed aggregates rows).sum / rows.length) := by
      have hlen : 0 < rows.length := List.length_pos_iff.mpr hrows
      change (if 0 < GroupState.count _ then _ else _) = _
      rw [hcount, if_pos hlen, hsum]
      refine (div_num_iff _ _ _ (by exact_mod_cast hlen)).mpr ⟨_, rfl, rfl⟩
    refine imp_congr_right fun _ => ?_
    rw [havg]
    exact iff_of_eq (Exact.num.injEq _ _)
  · exact imp_congr_right fun _ => exists_congr fun m =>
      and_congr_left fun _ => run_min aggregates rows hrows m
  · exact imp_congr_right fun _ => exists_congr fun m =>
      and_congr_left fun _ => run_max aggregates rows hrows m

def twoColumns (x y : Option Rat) : NumberRow
  | some (.column _ "x") => x
  | some (.column _ "y") => y
  | _ => none

def countSumMax : List (AggExpr Exact) :=
  [⟨"count", some .star, "n"⟩, ⟨"sum", some (.column none "x"), "sx"⟩,
    ⟨"max", some (.column none "y"), "my"⟩]

theorem keptApart_countSumMax : ∀ a ∈ countSumMax,
    KeptApart countSumMax [twoColumns (some 3) (some 2), twoColumns none (some 7)] a := by
  intro a ha
  simp only [countSumMax, List.mem_cons, List.not_mem_nil, or_false] at ha
  obtain rfl | rfl | rfl := ha
  · trivial
  · show ([3] : List Rat).sum = ([3] : List Rat).sum
    rfl
  · intro _
    have hmax : IsGreatest {x | x ∈ ([2, 7] : List Rat)} 7 := by
      refine ⟨List.mem_cons_of_mem 2 List.mem_cons_self, fun x hx => ?_⟩
      obtain rfl | rfl : x = 2 ∨ x = 7 := by simpa using hx
      · norm_num
      · exact le_refl _
    exact ⟨7, hmax, hmax⟩

/-- `count(*), sum(x), max(y)` over a row x = 3, y = 2 and a row without x and y = 7. -/
theorem group_aggregates_iff_two_rows :
    countSumMax.length = 3 ∧ ∀ a ∈ countSumMax,
      RightInGroup [twoColumns (some 3) (some 2), twoColumns none (some 7)] a
        ((groupRun countSumMax
          ([twoColumns (some 3) (some 2), twoColumns none (some 7)].map valueRow)).finalize
            a.func) := by
  refine ⟨rfl, fun a ha => ?_⟩
  exact (group_aggregates_iff countSumMax (by simp [countSumMax, aggFns]) _ (by simp) a ha).mpr
    (keptApart_countSumMax a ha)

/-- `sum(x)` with `sum(y)` has the sum of both; a value that is missing counts in the average and,
in the first row, as a minimum of 0. -/
theorem group_aggregates_mixed :
    (groupRun [⟨"sum", some (.column none "x"), "sx"⟩, ⟨"sum", some (.column none "y"), "sy"⟩]
        [valueRow (twoColumns (some 1) (some 2))]).finalize "sum" = .num 3 ∧
      (groupRun [⟨"avg", some (.column none "x"), "ax"⟩]
        [valueRow (twoColumns (some 4) none), valueRow (twoColumns none none)]).finalize "avg" =
          .num 2 ∧
      (groupRun [⟨"min", some (.column none "x"), "mx"⟩]
        [valueRow (twoColumns none none), valueRow (twoColumns (some 5) none)]).finalize "min" =
          .num 0 :=
  ⟨by decide +kernel, by decide +kernel, by decide +kernel⟩

theorem given_alone {α : Type} (funcs : List String) (a : AggExpr Exact) (h : a.func ∈ funcs)
    (row : Option (Expr Exact) → Option α) : given funcs [a] row = (row a.arg).toList := by
  rw [given_cons, if_pos h]
  exact List.append_nil _

theorem flatMap_given_alone (funcs : List String) (a : AggExpr Exact) (h : a.func ∈ funcs)
    (rows : List NumberRow) :
    rows.flatMap (given funcs [a]) = rows.filterMap fun row => row a.arg := by
  rw [List.filterMap_eq_flatMap_toList]
  exact List.flatMap_congr fun row _ => given_alone funcs a h row

theorem compared_alone (a : AggExpr Exact) (rows : List NumberRow)
    (h : ∀ row ∈ rows, ∃ x, row a.arg = some x) :
    compared a.func [a] rows = rows.filterMap fun row => row a.arg := by
  cases rows with
  | nil => rfl
  | cons row rows =>
    obtain ⟨x, hx⟩ := h row List.mem_cons_self
    rw [compared, flatMap_given_alone _ a List.mem_cons_self,
      given_alone _ a List.mem_cons_self, hx, List.filterMap_cons, hx]
    rfl

/-- An aggregate alone, with its argument in every row, is right. -/
theorem keptApart_alone (a : AggExpr Exact) (rows : List NumberRow)
    (h : ∀ row ∈ rows, ∃ x, row a.arg = some x) : KeptApart [a] rows a := by
  have hlen : (rows.filterMap fun row => row a.arg).length = rows.length := by
    rw [List.filterMap_length_eq_length]
    intro row hrow
    obtain ⟨x, hx⟩ := h row hrow
    rw [hx]
    rfl
  have hcompared := compared_alone a rows h
  unfold KeptApart
  split
  next hfunc => rw [summed, flatMap_given_alone _ a (by simp [hfunc])]
  next hfunc =>
    intro xs _
    rw [summed, flatMap_given_alone _ a (by simp [hfunc]), hlen]
  next hfunc =>
    intro xs hne
    rw [hfunc] at hcompared
    obtain ⟨m, hm⟩ := Option.ne_none_iff_exists'.mp (mt List.min?_eq_none_iff.mp hne)
    have hleast : IsLeast {x | x ∈ rows.filterMap fun row => row a.arg} m :=
      List.min?_eq_some_iff.mp hm
    exact ⟨m, hcompared ▸ hleast, hleast⟩
  next hfunc =>
    intro xs hne
    rw [hfunc] at hcompared
    obtain ⟨m, hm⟩ := Option.ne_none_iff_exists'.mp (mt List.max?_eq_none_iff.mp hne)
    have hgreatest : IsGreatest {x | x ∈ rows.filterMap fun row => row a.arg} m :=
      List.max?_eq_some_iff.mp hm
    exact ⟨m, hcompared ▸ hgreatest, hgreatest⟩
  next => trivial

/-! ### The groups of the operator -/

section Groups
variable {F : Type} [FloatOps F]

def indexedRows (batches : List (RecordBatch F)) : List (RecordBatch F × Nat) :=
  batches.flatMap fun b => (List.range b.numRows).map fun row => (b, row)

def keyedRow (p : RecordBatch F × Nat) : Res (String × (Option (Expr F) → Option F)) :=
  (extractGroupKey p.1 p.2).map fun key => (key, extractF64 p.1 p.2)

def rowsOfKey (key : String) (rows : List (String × (Option (Expr F) → Option F))) :
    List (Option (Expr F) → Option F) :=
  rows.filterMap fun p => if p.1 = key then some p.2 else none

theorem lookup_updateGroup (key k : String) (f : GroupState F → GroupState F)
    (groups : Groups F) :
    (updateGroup key f groups).lookup k =
      if k = key then some (f ((groups.lookup key).getD GroupState.default))
      else groups.lookup k := by
  induction groups with
  | nil =>
    by_cases h : k = key
    · simp [updateGroup, h]
    · simp [updateGroup, List.lookup_cons, h, beq_false_of_ne h]
  | cons g groups ih =>
    obtain ⟨k', s⟩ := g
    by_cases hkey : k' = key
    · subst hkey
      by_cases h : k = k'
      · simp [updateGroup, h]
      · simp [updateGroup, List.lookup_cons, h, beq_false_of_ne h]
    · by_cases h : k = k'
      · subst h
        simp [updateGroup, hkey]
      · simp [updateGroup, List.lookup_cons, hkey, beq_false_of_ne h,
          beq_false_of_ne (Ne.symm hkey), ih]

theorem lookup_foldl (aggregates : List (AggExpr F))
    (rows : List (String × (Option (Expr F) → Option F))) (groups : Groups F) (key : String) :
    ((rows.foldl (fun g p => updateGroup p.1 (groupStep aggregates p.2) g) groups).lookup
        key).getD GroupState.default =
      (rowsOfKey key rows).foldl (fun s row => groupStep aggregates row s)
        ((groups.lookup key).getD GroupState.default) := by
  induction rows generalizing groups with
  | nil => rfl
  | cons p rows ih =>
    rw [List.foldl_cons, ih, lookup_updateGroup]
    by_cases h : p.1 = key
    · simp [rowsOfKey, h]
    · simp [rowsOfKey, h, Ne.symm h]

theorem foldlM_indexedRows (aggregates : List (AggExpr F)) (batches : List (RecordBatch F))
    (groups : Groups F) :
    batches.foldlM (accumulateBatch aggregates) groups =
      (indexedRows batches).foldlM (fun g p => accumulateRow aggregates p.1 g p.2) groups := by
  induction batches generalizing groups with
  | nil => rfl
  | cons b bs ih =>
    rw [List.foldlM_cons, indexedRows, List.flatMap_cons, List.foldlM_append, List.foldlM_map]
    exact bind_congr fun g => ih g

theorem foldlM_accumulateRow (aggregates : List (AggExpr F)) (ps : List (RecordBatch F × Nat))
    (groups groups' : Groups F)
    (h : ps.foldlM (fun g p => accumulateRow aggregates p.1 g p.2) groups = .ok groups') :
    ∃ rows : List (String × (Option (Expr F) → Option F)),
      ps.map keyedRow = rows.map .ok ∧
      groups' = rows.foldl (fun g p => updateGroup p.1 (groupStep aggregates p.2) g) groups := by
  induction ps generalizing groups with
  | nil =>
    cases h
    exact ⟨[], rfl, rfl⟩
  | cons p ps ih =>
    rw [List.foldlM_cons] at h
    obtain ⟨g, hrow, hrest⟩ := of_bind_ok _ _ _ h
    rw [accumulateRow_eq] at hrow
    cases hkey : extractGroupKey p.1 p.2 with
    | error e =>
      rw [hkey] at hrow
      cases hrow
    | ok key =>
      rw [hkey] at hrow
      cases hrow
      obtain ⟨rows, hmap, hfold⟩ := ih _ hrest
      refine ⟨(key, extractF64 p.1 p.2) :: rows, ?_, hfold⟩
      rw [List.map_cons, hmap, keyedRow, hkey]
      rfl

/-- The groups `compute` makes: the state of each key is the run over the rows that have it. -/
theorem groups_of_compute (aggregates : List (AggExpr F)) (batches : List (RecordBatch F))
    (groups : Groups F) (h : batches.foldlM (accumulateBatch aggregates) [] = .ok groups) :
    ∃ rows : List (String × (Option (Expr F) → Option F)),
      (indexedRows batches).map keyedRow = rows.map .ok ∧
      ∀ key, (groups.lookup key).getD GroupState.default =
        groupRun aggregates (rowsOfKey key rows) := by
  rw [foldlM_indexedRows] at h
  obtain ⟨rows, hmap, rfl⟩ := foldlM_accumulateRow aggregates _ [] groups h
  exact ⟨rows, hmap, fun key => lookup_foldl aggregates rows [] key⟩

end Groups

end InfraLens.Query
