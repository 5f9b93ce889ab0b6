import InfraLens.Parser

/-! `parse_interval` (parser.rs) with its multiplication checked: which texts are intervals, and
when their number of nanoseconds is exact. -/
namespace InfraLens.Query
open LibText

section Intervals
variable {F : Type} [Alphabetic]

def intervalParts (s : String) : Except (ParseError F) (Int64 × Int64) :=
  let cs := trim s.toList
  let numStr := trim (cs.takeWhile fun c => !Alphabetic.isAlphabetic c)
  let unit := String.ofList ((trim (cs.dropWhile fun c => !Alphabetic.isAlphabetic c)).map
    Char.toLower)
  match parseI64 numStr with
  | none => .error (.invalidNumber (String.ofList cs))
  | some num => match nsPerUnit unit with
    | none => .error (.unknownUnit unit)
    | some ns => .ok (num, ns)

end Intervals

inductive IntervalFailure (F : Type) where
  | rejected (e : ParseError F)
  | overflow

def fitsI64 (n : Int) : Bool := -9223372036854775808 ≤ n ∧ n ≤ 9223372036854775807

section Intervals
variable {F : Type} [Alphabetic]

/-- `parse_interval` where an overflow stops the program instead of wrapping. -/
def checkedInterval (s : String) : Except (IntervalFailure F) Int64 :=
  match intervalParts (F := F) s with
  | .error e => .error (.rejected e)
  | .ok (num, ns) => if fitsI64 (num.toInt * ns.toInt) then .ok (num * ns) else .error .overflow

theorem checkedInterval_of_parts (s : String) (num ns : Int64)
    (h : intervalParts (F := F) s = .ok (num, ns)) :
    checkedInterval (F := F) s =
      if fitsI64 (num.toInt * ns.toInt) then .ok (num * ns) else .error .overflow := by
  rw [checkedInterval, h]

theorem parseInterval_eq (s : String) :
    (parseInterval s : Except (ParseError F) Int64) = (intervalParts s).map fun p => p.1 * p.2 := by
  simp only [parseInterval, intervalParts]
  cases parseI64 (trim ((trim s.toList).takeWhile fun c => !Alphabetic.isAlphabetic c)) with
  | none => rfl
  | some num =>
    cases nsPerUnit (String.ofList ((trim ((trim s.toList).dropWhile fun c =>
      !Alphabetic.isAlphabetic c)).map Char.toLower)) <;> rfl

/-- Both ways of running agree except on an overflow. -/
theorem parseInterval_of_checked (s : String) :
    (∀ v, checkedInterval (F := F) s = .ok v → parseInterval (F := F) s = .ok v) ∧
    ∀ e : ParseError F, checkedInterval s = .error (.rejected e) → parseInterval s = .error e := by
  rw [parseInterval_eq, checkedInterval]
  cases intervalParts (F := F) s with
  | error e =>
    refine ⟨fun v h => (by cases h), fun e h => ?_⟩
    cases h
    rfl
  | ok p =>
    cases hfit : fitsI64 (p.1.toInt * p.2.toInt) with
    | false => simp [hfit]
    | true => simp [hfit, Except.map]

/-! ### Texts of intervals -/

omit [Alphabetic] in
/-- A number, perhaps whitespace, and a unit in any letter case. -/
def Written (cs : List Char) (num ns : Int64) : Prop :=
  ∃ ds sp unit, cs = ds ++ (sp ++ unit) ∧ (∀ c ∈ sp, isWhitespace c = true) ∧
    parseI64 ds = some num ∧ nsPerUnit (String.ofList (unit.map Char.toLower)) = some ns

omit [Alphabetic] in
theorem stripPlus_cases (cs : List Char) :
    (∃ ds, cs = '+' :: ds ∧ stripPlus cs = ds) ∨ stripPlus cs = cs := by
  unfold stripPlus
  split
  next ds => exact .inl ⟨ds, rfl, rfl⟩
  · exact .inr rfl

omit [Alphabetic] in
theorem parseI64_chars (ds : List Char) (num : Int64) (h : parseI64 ds = some num) :
    ds ≠ [] ∧ ∀ c ∈ ds, c = '-' ∨ c = '+' ∨ c.isDigit = true := by
  have hdigits : ∀ (cs : List Char) (f : Nat → Option Int64), (parseNat cs).bind f = some num →
      cs ≠ [] ∧ ∀ c ∈ cs, c.isDigit = true := by
    intro cs f hf
    obtain ⟨n, hn, _⟩ := Option.bind_eq_some_iff.mp hf
    unfold parseNat at hn
    split at hn
    next hcs => exact ⟨hcs.1, List.all_eq_true.mp hcs.2⟩
    · cases hn
  unfold parseI64 at h
  split at h
  next cs =>
    obtain ⟨_, hcs⟩ := hdigits cs _ h
    refine ⟨by simp, ?_⟩
    intro c hc
    cases List.mem_cons.mp hc with
    | inl he => exact .inl he
    | inr hm => exact .inr (.inr (hcs c hm))
  next hminus =>
    obtain ⟨hne, hcs⟩ := hdigits _ _ h
    cases stripPlus_cases ds with
    | inl hplus =>
      obtain ⟨cs, rfl, hstrip⟩ := hplus
      rw [hstrip] at hcs
      refine ⟨by simp, ?_⟩
      intro c hc
      cases List.mem_cons.mp hc with
      | inl he => exact .inr (.inl he)
      | inr hm => exact .inr (.inr (hcs c hm))
    | inr hstrip =>
      rw [hstrip] at hne hcs
      exact ⟨hne, fun c hc => .inr (.inr (hcs c hc))⟩

omit [Alphabetic] in
theorem number_whitespace (ds : List Char) (num : Int64) (h : parseI64 ds = some num) :
    ∀ c ∈ ds, isWhitespace c = false := by
  intro c hc
  obtain rfl | rfl | hdigit := (parseI64_chars ds num h).2 c hc
  · decide
  · decide
  · exact isWhitespace_digit c hdigit

theorem number_letters (ds : List Char) (num : Int64) (h : parseI64 ds = some num) :
    ∀ c ∈ ds, (!Alphabetic.isAlphabetic c) = true := by
  intro c hc
  obtain rfl | rfl | hdigit := (parseI64_chars ds num h).2 c hc
  · rw [Alphabetic.ascii '-' (by decide)]
    decide
  · rw [Alphabetic.ascii '+' (by decide)]
    decide
  · have hbounds := (isDigit_iff c).mp hdigit
    rw [Alphabetic.ascii c (by omega), isAlpha_digit c hdigit]
    rfl

omit [Alphabetic] in
theorem nsPerUnit_lower (unit : String) (ns : Int64) (h : nsPerUnit unit = some ns) :
    unit.toList ≠ [] ∧ ∀ c ∈ unit.toList, c.isLower = true := by
  unfold nsPerUnit at h
  split at h
  all_goals first | (exact ⟨by decide, List.all_eq_true.mp (by decide)⟩) | cases h

omit [Alphabetic] in
theorem toLower_isLower (c : Char) (h : c.toLower.isLower = true) : c.isAlpha = true := by
  rw [isAlpha_eq, Bool.or_eq_true]
  by_cases hupper : c.isUpper = true
  · exact .inl hupper
  · have hsame : c.toLower = c := by
      rw [isUpper_iff] at hupper
      refine dif_neg ?_
      rintro ⟨hge, hle⟩
      exact hupper ⟨hge, hle⟩
    rw [hsame] at h
    exact .inr h

omit [Alphabetic] in
theorem unit_letters (unit : List Char) (ns : Int64)
    (h : nsPerUnit (String.ofList (unit.map Char.toLower)) = some ns) :
    unit ≠ [] ∧ ∀ c ∈ unit, c.isAlpha = true := by
  obtain ⟨hne, hlower⟩ := nsPerUnit_lower _ ns h
  rw [String.toList_ofList] at hne hlower
  refine ⟨fun he => hne (by rw [he]; rfl), ?_⟩
  intro c hc
  exact toLower_isLower c (hlower _ (List.mem_map_of_mem hc))

omit [Alphabetic] in
theorem isAlpha_ascii (c : Char) (h : c.isAlpha = true) : c.toNat < 128 ∧ 64 < c.toNat := by
  have hlower := isLower_iff c
  have hupper := isUpper_iff c
  rw [isAlpha_eq, Bool.or_eq_true] at h
  cases h with
  | inl hu =>
    have hbounds := hupper.mp hu
    omega
  | inr hl =>
    have hbounds := hlower.mp hl
    omega

theorem intervalParts_ok (s : String) (num ns : Int64) :
    intervalParts (F := F) s = .ok (num, ns) ↔
      parseI64 (trim ((trim s.toList).takeWhile fun c => !Alphabetic.isAlphabetic c)) = some num ∧
      nsPerUnit (String.ofList ((trim ((trim s.toList).dropWhile fun c =>
        !Alphabetic.isAlphabetic c)).map Char.toLower)) = some ns := by
  simp only [intervalParts]
  cases parseI64 (trim ((trim s.toList).takeWhile fun c => !Alphabetic.isAlphabetic c)) with
  | none => simp
  | some m =>
    cases nsPerUnit (String.ofList ((trim ((trim s.toList).dropWhile fun c =>
      !Alphabetic.isAlphabetic c)).map Char.toLower)) <;> simp

theorem head_rest_alphabetic (sp unit : List Char) (hunit : ∀ c ∈ unit, c.isAlpha = true) :
    ∀ c ∈ ((sp.dropWhile fun c => !Alphabetic.isAlphabetic c) ++ unit).head?,
      (!Alphabetic.isAlphabetic c) = false := by
  intro c hc
  cases hrest : sp.dropWhile fun c => !Alphabetic.isAlphabetic c with
  | nil =>
    rw [hrest, List.nil_append] at hc
    have halpha := hunit c (List.mem_of_mem_head? hc)
    rw [Alphabetic.ascii c (isAlpha_ascii c halpha).1, halpha]
    rfl
  | cons d rest =>
    rw [hrest] at hc
    refine head_dropWhile (fun c => !Alphabetic.isAlphabetic c) sp c ?_
    rw [hrest]
    exact hc

omit [Alphabetic] in
theorem trim_unit (sp unit : List Char) (hsp : ∀ c ∈ sp, isWhitespace c = true)
    (hne : unit ≠ []) (hunit : ∀ c ∈ unit, c.isAlpha = true) : trim (sp ++ unit) = unit := by
  have hplain : ∀ c ∈ unit, isWhitespace c = false := by
    intro c hc
    obtain ⟨hlt, hgt⟩ := isAlpha_ascii c (hunit c hc)
    exact isWhitespace_ascii c (by omega) hlt
  have hsurrounded := trim_surrounded sp unit [] hsp (by simp) hne
    (fun c hc => hplain c (List.mem_of_mem_head? hc))
    (fun c hc => hplain c (List.mem_of_mem_getLast? hc))
  rwa [List.append_nil] at hsurrounded

theorem intervalParts_of_written (s : String) (num ns : Int64)
    (h : Written (trim s.toList) num ns) : intervalParts (F := F) s = .ok (num, ns) := by
  obtain ⟨ds, sp, unit, hcs, hsp, hnum, hns⟩ := h
  obtain ⟨hne, hletters⟩ := unit_letters unit ns hns
  -- whitespace before the unit is trimmed, on whichever side of the first letter it falls
  have hsplit : trim s.toList = (ds ++ sp.takeWhile fun c => !Alphabetic.isAlphabetic c) ++
      ((sp.dropWhile fun c => !Alphabetic.isAlphabetic c) ++ unit) := by
    rw [hcs, List.append_assoc, ← List.append_assoc (sp.takeWhile _),
      List.takeWhile_append_dropWhile]
  have htake : ∀ c ∈ ds ++ sp.takeWhile (fun c => !Alphabetic.isAlphabetic c),
      (!Alphabetic.isAlphabetic c) = true := by
    intro c hc
    cases List.mem_append.mp hc with
    | inl hd => exact number_letters ds num hnum c hd
    | inr hs => exact List.mem_takeWhile_imp (p := fun c => !Alphabetic.isAlphabetic c) hs
  obtain ⟨hfront, hback⟩ := span_append htake (head_rest_alphabetic sp unit hletters)
  rw [intervalParts_ok, hsplit, hfront, hback,
    trim_append_spaces ds _ (number_whitespace ds num hnum)
      (fun c hc => hsp c (List.takeWhile_subset _ hc)) (parseI64_chars ds num hnum).1,
    trim_unit _ unit (fun c hc => hsp c (List.dropWhile_subset _ hc)) hne hletters]
  exact ⟨hnum, hns⟩

theorem written_of_intervalParts (s : String) (num ns : Int64)
    (h : intervalParts (F := F) s = .ok (num, ns)) : Written (trim s.toList) num ns := by
  obtain ⟨hnum, hns⟩ := (intervalParts_ok s num ns).mp h
  obtain ⟨as, bs, hfront, has, hbs⟩ :=
    trim_split ((trim s.toList).takeWhile fun c => !Alphabetic.isAlphabetic c)
  obtain ⟨as', bs', hback, has', hbs'⟩ :=
    trim_split ((trim s.toList).dropWhile fun c => !Alphabetic.isAlphabetic c)
  have hcs : trim s.toList =
      ((trim s.toList).takeWhile fun c => !Alphabetic.isAlphabetic c) ++
        (trim s.toList).dropWhile fun c => !Alphabetic.isAlphabetic c :=
    List.takeWhile_append_dropWhile.symm
  -- the text is trimmed, so nothing is trimmed before the number or after the unit
  have hstart : as = [] := by
    cases as with
    | nil => rfl
    | cons c as =>
      have hhead := head_trim s.toList c (by rw [hcs, hfront]; rfl)
      rw [has c List.mem_cons_self] at hhead
      cases hhead
  have hend : bs' = [] := by
    cases hlast : bs'.getLast? with
    | none => exact List.getLast?_eq_none_iff.mp hlast
    | some c =>
      have hne : bs' ≠ [] := by
        rintro rfl
        cases hlast
      have hwhole := getLast_trim s.toList c (by
        rw [hcs, hback, ← List.append_assoc, ← List.append_assoc,
          List.getLast?_append_of_ne_nil _ hne]
        exact hlast)
      rw [hbs' c (List.mem_of_mem_getLast? hlast)] at hwhole
      cases hwhole
  rw [hstart, List.nil_append] at hfront
  rw [hend, List.append_nil] at hback
  refine ⟨_, bs ++ as', _, ?_, ?_, hnum, hns⟩
  · rw [List.append_assoc, ← hback, ← List.append_assoc, ← hfront, ← hcs]
  · intro c hc
    cases List.mem_append.mp hc with
    | inl hb => exact hbs c hb
    | inr ha => exact has' c ha

/-! ### Exact products -/

omit [Alphabetic] in
theorem toInt_mul_fits (a b : Int64) (h : fitsI64 (a.toInt * b.toInt) = true) :
    (a * b).toInt = a.toInt * b.toInt := by
  rw [fitsI64, decide_eq_true_eq] at h
  rw [Int64.toInt_mul, Int.bmod_eq_of_le (by omega) (by omega)]

/-- No overflow; a result only for a text of an interval, and then the exact product; an error
where the product does not fit. -/
structure ExactOrRejected (F : Type) [Alphabetic] (s : String) : Prop where
  no_overflow : checkedInterval (F := F) s ≠ .error .overflow
  exact_product : ∀ v, checkedInterval (F := F) s = .ok v →
    ∃ num ns, Written (trim s.toList) num ns ∧ v.toInt = num.toInt * ns.toInt
  rejected : ∀ num ns, Written (trim s.toList) num ns → fitsI64 (num.toInt * ns.toInt) = false →
    ∃ e : ParseError F, checkedInterval s = .error (.rejected e)

/-- Intervals are exact or rejected, except those whose product overflows. -/
theorem interval_exact_iff (s : String) :
    ExactOrRejected F s ↔
      ∀ num ns, Written (trim s.toList) num ns → fitsI64 (num.toInt * ns.toInt) = true := by
  constructor
  · intro hlaw num ns hwritten
    have hparts := intervalParts_of_written (F := F) s num ns hwritten
    have hno := hlaw.no_overflow
    rw [checkedInterval_of_parts s num ns hparts] at hno
    cases hfit : fitsI64 (num.toInt * ns.toInt) with
    | true => rfl
    | false =>
      rw [hfit] at hno
      exact absurd rfl hno
  · intro hfits
    have hchecked : ∀ num ns, intervalParts (F := F) s = .ok (num, ns) →
        checkedInterval (F := F) s = .ok (num * ns) := by
      intro num ns hparts
      rw [checkedInterval_of_parts s num ns hparts]
      exact if_pos (hfits num ns (written_of_intervalParts s num ns hparts))
    cases hparts : intervalParts (F := F) s with
    | error e =>
      have hrejected : checkedInterval (F := F) s = .error (.rejected e) := by
        rw [checkedInterval, hparts]
      refine ⟨?_, ?_, fun _ _ _ _ => ⟨e, hrejected⟩⟩
      · rw [hrejected]
        intro h
        cases h
      · intro v h
        rw [hrejected] at h
        cases h
    | ok p =>
      have hresult := hchecked p.1 p.2 hparts
      have hwritten := written_of_intervalParts s p.1 p.2 hparts
      refine ⟨?_, ?_, ?_⟩
      · rw [hresult]
        intro h
        cases h
      · intro v h
        rw [hresult] at h
        cases h
        exact ⟨p.1, p.2, hwritten, toInt_mul_fits p.1 p.2 (hfits p.1 p.2 hwritten)⟩
      · intro num ns hw hfit
        rw [hfits num ns hw] at hfit
        cases hfit

end Intervals

/-- Some three hundred years of days overflow, and wrap to a negative number of nanoseconds where
overflows are not checked. -/
theorem interval_overflows :
    @checkedInterval String asciiLetters "106752 days" = .error .overflow ∧
    @parseInterval String asciiLetters "106752 days" = .ok (-9223371273709551616) := by
  have hwritten : Written (trim "106752 days".toList) 106752 86400000000000 :=
    ⟨"106752".toList, [' '], "days".toList, rfl, List.forall_mem_singleton.mpr (by decide),
      by decide, by decide⟩
  have hparts := @intervalParts_of_written String asciiLetters _ _ _ hwritten
  refine ⟨?_, ?_⟩
  · rw [@checkedInterval_of_parts String asciiLetters _ _ _ hparts]
    exact if_neg (by decide)
  · rw [@parseInterval_eq String asciiLetters, hparts]
    exact congrArg Except.ok (by decide)

end InfraLens.Query
