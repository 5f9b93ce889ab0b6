import InfraLens.Eval
import InfraLens.LibGlob

/-! LIKE (functions/eval.rs): what the pattern says, and what the search for its pieces from left
to right makes of it. -/
namespace InfraLens.Query
open LibGlob

/-- The text is the pattern with each `%` replaced by some text. -/
inductive Like : List Char → List Char → Prop where
  | nil : Like [] []
  | char (c : Char) (p s : List Char) (hc : c ≠ '%') (h : Like p s) : Like (c :: p) (c :: s)
  | wildcard (t p s : List Char) (h : Like p s) : Like ('%' :: p) (t ++ s)

def starred : List Char → List Char
  | [] => []
  | '.' :: '*' :: rest => '%' :: starred rest
  | c :: rest => c :: starred rest

/-! ### Pieces -/

theorem splitOn_percent (p : List Char) : ('%' :: p).splitOn '%' = [] :: p.splitOn '%' := by
  simp [List.splitOn, List.splitOnP_cons_eq_if_modifyHead]

theorem splitOn_char (c : Char) (hc : c ≠ '%') (p : List Char) :
    (c :: p).splitOn '%' = (p.splitOn '%').modifyHead (List.cons c) := by
  simp [List.splitOn, List.splitOnP_cons_eq_if_modifyHead, hc]

theorem exists_splitOn (p : List Char) : ∃ q qs, p.splitOn '%' = q :: qs :=
  List.exists_cons_of_ne_nil (List.splitOnP_ne_nil _ p)

theorem glob_cons_char (c : Char) (q : List Char) (qs : List (List Char)) (s : List Char) :
    Glob ((c :: q) :: qs) s ↔ ∃ s', s = c :: s' ∧ Glob (q :: qs) s' := by
  constructor
  · rintro ⟨rest, rfl, hrest⟩
    exact ⟨q ++ rest, rfl, rest, rfl, hrest⟩
  · rintro ⟨_, rfl, rest, rfl, hrest⟩
    exact ⟨rest, rfl, hrest⟩

theorem like_cons_char (c : Char) (hc : c ≠ '%') (p s : List Char) :
    Like (c :: p) s ↔ ∃ s', s = c :: s' ∧ Like p s' := by
  constructor
  · intro h
    cases h with
    | char _ _ s' _ h => exact ⟨s', rfl, h⟩
    | wildcard t _ s' h => exact absurd rfl hc
  · rintro ⟨s', rfl, h⟩
    exact .char c p s' hc h

theorem like_percent (p s : List Char) :
    Like ('%' :: p) s ↔ ∃ t s', s = t ++ s' ∧ Like p s' := by
  constructor
  · intro h
    cases h with
    | char _ _ s' hc h => exact absurd rfl hc
    | wildcard t _ s' h => exact ⟨t, s', rfl, h⟩
  · rintro ⟨t, s', rfl, h⟩
    exact .wildcard t p s' h

theorem like_iff_glob (p s : List Char) : Like p s ↔ Glob (p.splitOn '%') s := by
  induction p generalizing s with
  | nil =>
    constructor
    · intro h
      cases h
      exact ⟨[], rfl, rfl⟩
    · rintro ⟨rest, rfl, rfl⟩
      exact .nil
  | cons c p ih =>
    obtain ⟨q, qs, hsplit⟩ := exists_splitOn p
    by_cases hc : c = '%'
    · subst hc
      rw [splitOn_percent, glob_cons_nil, hsplit, gapped_iff_glob, like_percent, ← hsplit]
      simp only [ih]
    · rw [splitOn_char c hc, hsplit, List.modifyHead_cons, glob_cons_char, like_cons_char c hc,
        ← hsplit]
      simp only [ih]

theorem splitStars_ne_nil (pattern : List Char) : splitStars pattern ≠ [] := by
  unfold splitStars
  split
  · exact List.cons_ne_nil _ _
  · exact List.cons_ne_nil _ _
  · split
    · exact List.cons_ne_nil _ _
    · exact List.cons_ne_nil _ _

theorem splitStars_cons (c : Char) (rest : List Char)
    (h : ∀ tail, c = '.' → rest = '*' :: tail → False) :
    splitStars (c :: rest) = (splitStars rest).modifyHead (List.cons c) := by
  rw [splitStars]
  · cases hs : splitStars rest with
    | nil => exact absurd hs (splitStars_ne_nil rest)
    | cons part parts => rfl
  · exact h

theorem globToRegex_cons (c : Char) (rest : List Char) (hc : c ≠ '%') (hu : c ≠ '_') :
    globToRegex (c :: rest) = c :: globToRegex rest := by
  simp [globToRegex, hc, hu]

theorem globToRegex_percent (rest : List Char) :
    globToRegex ('%' :: rest) = '.' :: '*' :: globToRegex rest := by
  simp [globToRegex, dotStar]

theorem star_of_globToRegex (rest tail : List Char) (h : globToRegex rest = '*' :: tail) :
    ∃ tail', rest = '*' :: tail' := by
  cases rest with
  | nil => cases h
  | cons c rest =>
    by_cases hc : c = '%'
    · subst hc
      rw [globToRegex_percent] at h
      cases h
    · by_cases hu : c = '_'
      · subst hu
        simp [globToRegex] at h
      · rw [globToRegex_cons c rest hc hu] at h
        cases h
        exact ⟨rest, rfl⟩

theorem splitStars_globToRegex (p : List Char) (h : '_' ∉ p) :
    splitStars (globToRegex p) = (starred p).splitOn '%' := by
  induction p using starred.induct with
  | case1 => rfl
  | case2 rest ih =>
    have hrest : '_' ∉ rest := fun hm => h (by simp [hm])
    rw [globToRegex_cons '.' _ (by decide) (by decide),
      globToRegex_cons '*' _ (by decide) (by decide), splitStars, starred, splitOn_percent,
      ih hrest]
  | case3 c rest hstar ih =>
    obtain ⟨hu, hrest⟩ := not_or.mp (fun hm => h (List.mem_cons.mpr hm))
    rw [starred]
    · by_cases hc : c = '%'
      · subst hc
        rw [globToRegex_percent, splitStars, splitOn_percent, ih hrest]
      · rw [globToRegex_cons c rest hc (Ne.symm hu), splitOn_char c hc, ← ih hrest]
        apply splitStars_cons
        intro tail hdot hregex
        obtain ⟨tail', hrest⟩ := star_of_globToRegex rest tail hregex
        exact hstar tail' hdot hrest
    · exact hstar

/-! ### The search -/

theorem findPart_some (part s : List Char) (i : Nat) (h : findPart part s = some i) :
    LeftmostAt part s i ∧ i ≤ s.length := by
  obtain ⟨hi, _, hfirst⟩ := List.find?_range_eq_some.mp h
  refine ⟨⟨List.isPrefixOf_iff_prefix.mp hi, ?_⟩, ?_⟩
  · intro j hj
    by_contra hlt
    have hno := hfirst j (by omega)
    rw [List.isPrefixOf_iff_prefix.mpr hj] at hno
    cases hno
  · have hmem := List.mem_range.mp (List.mem_of_find?_eq_some h)
    omega

theorem findPart_none (part s : List Char) (h : findPart part s = none) (j : Nat) :
    ¬ part <+: s.drop j := by
  intro hj
  have hnone := List.find?_eq_none.mp h
  by_cases hle : j ≤ s.length
  · exact hnone j (List.mem_range.mpr (by omega)) (List.isPrefixOf_iff_prefix.mpr hj)
  · -- beyond the end only the empty part is found, and that is found at the start
    rw [List.drop_eq_nil_of_le (by omega), List.prefix_nil] at hj
    subst hj
    exact hnone 0 (by simp) (by simp)

theorem leftmostAt_nil (s : List Char) : LeftmostAt [] s 0 := ⟨List.nil_prefix, fun _ _ => by omega⟩

section Search
variable (anchored : Bool) (ips : List (Nat × List Char)) (h : ∀ ip ∈ ips, ip.1 ≠ 0)
include h

/-- The pieces after the first are found at the shortest start of the text that has them. -/
theorem matchParts_some (s remaining : List Char)
    (hm : matchParts anchored ips s = some remaining) :
    ∃ u, Shortest (Gapped (ips.map Prod.snd)) s u ∧ s = u ++ remaining := by
  induction ips generalizing s with
  | nil =>
    cases hm
    exact ⟨[], ⟨List.nil_prefix, rfl, fun _ _ _ => Nat.zero_le _⟩, rfl⟩
  | cons ip ips ih =>
    obtain ⟨i, part⟩ := ip
    have hi : i ≠ 0 := h (i, part) List.mem_cons_self
    have hrest : ∀ ip ∈ ips, ip.1 ≠ 0 := fun ip hip => h ip (List.mem_cons_of_mem _ hip)
    rw [matchParts] at hm
    split at hm
    next hempty =>
      obtain rfl := List.isEmpty_iff.mp hempty
      obtain ⟨u, hu, hs⟩ := ih hrest s hm
      exact ⟨u, shortest_cons [] _ s 0 (leftmostAt_nil s) (Nat.zero_le _) u hu, hs⟩
    next =>
      split at hm
      next pos hpos =>
        obtain ⟨hleft, hle⟩ := findPart_some part s pos hpos
        rw [if_neg (fun hc => hi hc.1)] at hm
        obtain ⟨u, hu, hs⟩ := ih hrest _ hm
        refine ⟨s.take (pos + part.length) ++ u, shortest_cons part _ s pos hleft hle u hu, ?_⟩
        rw [List.append_assoc, ← hs, List.take_append_drop]
      · cases hm

theorem matchParts_none (s : List Char) (hm : matchParts anchored ips s = none) (v : List Char)
    (hv : v <+: s) : ¬ Gapped (ips.map Prod.snd) v := by
  induction ips generalizing s v with
  | nil => cases hm
  | cons ip ips ih =>
    obtain ⟨i, part⟩ := ip
    have hi : i ≠ 0 := h (i, part) List.mem_cons_self
    have hrest : ∀ ip ∈ ips, ip.1 ≠ 0 := fun ip hip => h ip (List.mem_cons_of_mem _ hip)
    rw [matchParts] at hm
    intro hgapped
    split at hm
    next hempty =>
      obtain rfl := List.isEmpty_iff.mp hempty
      obtain ⟨w, hw, hw', _⟩ := gapped_after [] _ s 0 (leftmostAt_nil s) v hv hgapped
      exact ih hrest s hm w hw hw'
    next =>
      split at hm
      next pos hpos =>
        obtain ⟨hleft, _⟩ := findPart_some part s pos hpos
        rw [if_neg (fun hc => hi hc.1)] at hm
        obtain ⟨w, hw, hw', _⟩ := gapped_after part _ s pos hleft v hv hgapped
        exact ih hrest _ hm w hw hw'
      next hpos =>
        exact not_gapped_of_absent part _ s (findPart_none part s hpos) v hv hgapped

end Search

theorem matchParts_first (q : List Char) (ips : List (Nat × List Char)) (s : List Char) :
    matchParts (!q.isEmpty) ((0, q) :: ips) s =
      if q <+: s then matchParts (!q.isEmpty) ips (s.drop q.length) else none := by
  rw [matchParts]
  split
  next hempty =>
    obtain rfl := List.isEmpty_iff.mp hempty
    rw [if_pos List.nil_prefix]
    rfl
  next hne =>
    have hanchored : (!q.isEmpty) = true := by simpa using hne
    split
    next pos hpos =>
      obtain ⟨hleft, _⟩ := findPart_some q s pos hpos
      by_cases hzero : pos = 0
      · subst hzero
        have hq : q <+: s := hleft.here
        rw [if_neg (fun hc => hc.2.2 rfl), if_pos hq, Nat.zero_add]
      · have hno : ¬ q <+: s := by
          intro hq
          have := hleft.first 0 hq
          omega
        rw [if_pos ⟨rfl, hanchored, hzero⟩, if_neg hno]
    next hpos =>
      have hno : ¬ q <+: s := findPart_none q s hpos 0
      rw [if_neg hno]

theorem eq_of_splitStars (pattern q : List Char) (h : splitStars pattern = [q]) : q = pattern := by
  induction pattern using splitStars.induct generalizing q with
  | case1 =>
    cases h
    rfl
  | case2 rest ih =>
    rw [splitStars] at h
    exact absurd (List.cons.inj h).2 (splitStars_ne_nil rest)
  | case3 c rest hstar hnil ih => exact absurd hnil (splitStars_ne_nil rest)
  | case4 c rest hstar part parts hparts ih =>
    rw [splitStars_cons c rest hstar, hparts, List.modifyHead_cons] at h
    cases h
    rw [ih part hparts]

theorem isPrefixOf_dotStar (pattern q : List Char) (qs : List (List Char)) (hqs : qs ≠ [])
    (h : splitStars pattern = q :: qs) : dotStar.isPrefixOf pattern = q.isEmpty := by
  unfold splitStars at h
  split at h
  · cases h
    exact absurd rfl hqs
  · cases h
    rfl
  next c rest hstar =>
    have hno : dotStar.isPrefixOf (c :: rest) = false := by
      rw [Bool.eq_false_iff, ne_eq, List.isPrefixOf_iff_prefix]
      rintro ⟨tail, htail⟩
      cases htail
      exact hstar tail rfl rfl
    rw [hno]
    split at h
    · cases h
      rfl
    · cases h
      rfl

theorem getLast_splitStars (pattern : List Char) :
    (splitStars pattern).getLast? = some [] ↔ pattern = [] ∨ dotStar <:+ pattern := by
  induction pattern using splitStars.induct with
  | case1 => simp [splitStars]
  | case2 rest ih =>
    obtain ⟨part, parts, hparts⟩ := List.exists_cons_of_ne_nil (splitStars_ne_nil rest)
    rw [splitStars, hparts, List.getLast?_cons_cons, ← hparts, ih, List.suffix_cons_iff,
      List.suffix_cons_iff]
    simp [dotStar]
  | case3 c rest hstar hnil ih => exact absurd hnil (splitStars_ne_nil rest)
  | case4 c rest hstar part parts hparts ih =>
    rw [splitStars_cons c rest hstar, hparts, List.modifyHead_cons, List.suffix_cons_iff]
    have hne : dotStar ≠ c :: rest := by
      intro heq
      cases heq
      exact hstar [] rfl rfl
    cases parts with
    | nil =>
      -- without a wildcard in the rest, the last piece has the character
      have hrest : ¬ dotStar <:+ rest := by
        intro hsuffix
        have hlast := ih.mpr (Or.inr hsuffix)
        rw [hparts] at hlast
        obtain rfl : part = [] := by simpa using hlast
        obtain rfl := eq_of_splitStars rest [] hparts
        exact absurd (List.suffix_nil.mp hsuffix) (by simp [dotStar])
      simp [hne, hrest]
    | cons q qs =>
      have hrest : rest ≠ [] := by
        rintro rfl
        cases hparts
      rw [List.getLast?_cons_cons, ← List.getLast?_cons_cons (a := part), ← hparts, ih]
      simp [hne, hrest]

/-- No shorter start of the text matches the pieces, or anything may follow them. -/
def Tight (parts : List (List Char)) (s : List Char) : Prop :=
  parts.getLast? = some [] ∨ ∀ v, v <+: s → Glob parts v → s.length ≤ v.length

theorem glob_append (q : List Char) (qs : List (List Char)) (r : List Char) :
    Glob (q :: qs) (q ++ r) ↔ Gapped qs r := by
  constructor
  · rintro ⟨rest, hrest, h⟩
    rw [List.append_cancel_left hrest]
    exact h
  · intro h
    exact ⟨r, rfl, h⟩

theorem tight_append (q : List Char) (qs : List (List Char)) (r : List Char) (hqs : qs ≠ []) :
    Tight (q :: qs) (q ++ r) ↔
      qs.getLast? = some [] ∨ ∀ v, v <+: r → Gapped qs v → r.length ≤ v.length := by
  have hlast : (q :: qs).getLast? = qs.getLast? := by
    obtain ⟨p, ps, rfl⟩ := List.exists_cons_of_ne_nil hqs
    exact List.getLast?_cons_cons
  rw [Tight, hlast]
  refine or_congr_right ?_
  constructor
  · intro h v hv hgapped
    have hle := h (q ++ v) ((List.prefix_append_right_inj q).mpr hv)
      ((glob_append q qs v).mpr hgapped)
    rw [List.length_append, List.length_append] at hle
    omega
  · rintro h _ hv ⟨v, rfl, hgapped⟩
    have hle := h v ((List.prefix_append_right_inj q).mp hv) hgapped
    rw [List.length_append, List.length_append]
    omega

theorem matchParts_iff (q : List Char) (qs : List (List Char)) (hqs : qs ≠ []) (s : List Char) :
    (∃ remaining, matchParts (!q.isEmpty)
        ((List.range (q :: qs).length).zip (q :: qs)) s = some remaining ∧
      (qs.getLast? = some [] ∨ remaining = [])) ↔
      Glob (q :: qs) s ∧ Tight (q :: qs) s := by
  have hzip : (List.range (q :: qs).length).zip (q :: qs) =
      (0, q) :: ((List.range qs.length).map Nat.succ).zip qs := by
    rw [List.length_cons, List.range_succ_eq_map, List.zip_cons_cons]
  have hsnd : (((List.range qs.length).map Nat.succ).zip qs).map Prod.snd = qs :=
    List.map_snd_zip (by simp)
  have hindex : ∀ ip ∈ ((List.range qs.length).map Nat.succ).zip qs, ip.1 ≠ 0 := by
    intro ip hip
    obtain ⟨i, _, hi⟩ := List.mem_map.mp (List.of_mem_zip hip).1
    omega
  rw [hzip, matchParts_first]
  by_cases hq : q <+: s
  · obtain ⟨r, rfl⟩ := hq
    rw [if_pos (List.prefix_append q r), List.drop_left, glob_append, tight_append q qs r hqs]
    cases hm : matchParts (!q.isEmpty) (((List.range qs.length).map Nat.succ).zip qs) r with
    | none =>
      have hno := matchParts_none _ _ hindex r hm r List.prefix_rfl
      rw [hsnd] at hno
      simp [hno]
    | some remaining =>
      obtain ⟨u, hu, hr⟩ := matchParts_some _ _ hindex r remaining hm
      rw [hsnd] at hu
      simp only [Option.some.injEq, exists_eq_left']
      constructor
      · intro h
        cases h with
        | inl hlast =>
          refine ⟨?_, Or.inl hlast⟩
          rw [hr]
          exact gapped_extend qs hlast u remaining hu.holds
        | inr hnil =>
          obtain rfl : r = u := by rw [hr, hnil, List.append_nil]
          exact ⟨hu.holds, Or.inr hu.least⟩
      · rintro ⟨_, hlast | hleast⟩
        · exact Or.inl hlast
        · have hle := hleast u hu.start hu.holds
          rw [hr, List.length_append] at hle
          exact Or.inr (List.eq_nil_of_length_eq_zero (by omega))
  · rw [if_neg hq]
    constructor
    · rintro ⟨_, hm, _⟩
      cases hm
    · rintro ⟨⟨rest, rfl, _⟩, _⟩
      exact absurd (List.prefix_append q rest) hq

/-- The search finds a match when there is one and no shorter start of the text is one. -/
theorem simpleLikeMatch_iff (s pattern : List Char) :
    simpleLikeMatch s pattern = true ↔
      Glob (splitStars pattern) s ∧ Tight (splitStars pattern) s := by
  obtain ⟨q, qs, hparts⟩ := List.exists_cons_of_ne_nil (splitStars_ne_nil pattern)
  cases qs with
  | nil =>
    obtain rfl := eq_of_splitStars pattern q hparts
    rw [hparts]
    simp only [simpleLikeMatch, hparts]
    constructor
    · intro h
      obtain rfl : s = q := by simpa using h
      refine ⟨⟨[], (List.append_nil s).symm, rfl⟩, Or.inr ?_⟩
      rintro _ _ ⟨rest, rfl, rfl⟩
      simp
    · rintro ⟨⟨rest, rfl, rfl⟩, _⟩
      simp
  | cons p ps =>
    have hqs : p :: ps ≠ [] := List.cons_ne_nil p ps
    have hlast : dotStar.isSuffixOf pattern = true ↔ (p :: ps).getLast? = some [] := by
      rw [List.isSuffixOf_iff_suffix, ← List.getLast?_cons_cons (a := q), ← hparts,
        getLast_splitStars]
      have hne : pattern ≠ [] := by
        rintro rfl
        cases hparts
      simp [hne]
    rw [hparts, ← matchParts_iff q (p :: ps) hqs s]
    simp only [simpleLikeMatch, hparts, isPrefixOf_dotStar pattern q _ hqs hparts]
    rw [if_pos (by simp)]
    cases matchParts (!q.isEmpty) ((List.range (q :: p :: ps).length).zip (q :: p :: ps)) s with
    | none => simp
    | some remaining => simp [hlast]

/-! ### LIKE -/

theorem getLast_splitOn (w : List Char) :
    (w.splitOn '%').getLast? = some [] ↔ w = [] ∨ w.getLast? = some '%' := by
  induction w with
  | nil => simp [List.splitOn]
  | cons c w ih =>
    obtain ⟨q, qs, hsplit⟩ := exists_splitOn w
    by_cases hc : c = '%'
    · subst hc
      rw [splitOn_percent, hsplit, List.getLast?_cons_cons, ← hsplit, ih]
      cases w with
      | nil => simp
      | cons d w => simp
    · rw [splitOn_char c hc, hsplit, List.modifyHead_cons]
      cases qs with
      | nil =>
        have hno : ¬ w.getLast? = some '%' := by
          intro hlast
          have hempty := ih.mpr (Or.inr hlast)
          rw [hsplit] at hempty
          obtain rfl : q = [] := by simpa using hempty
          have hw : ['%'].intercalate (w.splitOn '%') = w := List.intercalate_splitOn '%'
          rw [hsplit, List.intercalate_singleton] at hw
          rw [← hw] at hlast
          cases hlast
        cases w with
        | nil => simp [hc]
        | cons d w => simpa using hno
      | cons p ps =>
        have hw : w ≠ [] := by
          rintro rfl
          cases hsplit
        rw [List.getLast?_cons_cons, ← List.getLast?_cons_cons (a := q), ← hsplit, ih]
        obtain ⟨d, w, rfl⟩ := List.exists_cons_of_ne_nil hw
        simp

/-- The pattern, with `.*` read as `%`, ends with a wildcard, or no proper start of the text
matches it. -/
def Settled (p s : List Char) : Prop :=
  (starred p).getLast? = some '%' ∨ ∀ v, v <+: s → Like (starred p) v → v = s

theorem tight_iff_settled (p s : List Char) (hu : '_' ∉ p) (h : Like (starred p) s) :
    Tight (splitStars (globToRegex p)) s ↔ Settled p s := by
  have hshort : (∀ v, v <+: s → Glob (splitStars (globToRegex p)) v → s.length ≤ v.length) ↔
      ∀ v, v <+: s → Like (starred p) v → v = s := by
    refine forall₂_congr fun v hv => ?_
    rw [splitStars_globToRegex p hu, ← like_iff_glob]
    refine imp_congr_right fun _ => ⟨hv.eq_of_length_le, ?_⟩
    rintro rfl
    exact Nat.le_refl _
  rw [Tight, hshort, splitStars_globToRegex p hu, getLast_splitOn, Settled]
  constructor
  · rintro ((hnil | hlast) | hall)
    · -- the empty pattern has only the empty text
      rw [hnil] at h
      cases h
      exact Or.inr fun v hv _ => List.prefix_nil.mp hv
    · exact Or.inl hlast
    · exact Or.inr hall
  · rintro (hlast | hall)
    · exact Or.inl (Or.inr hlast)
    · exact Or.inr hall

theorem like_starred (p s : List Char) (h : Like p s) : Like (starred p) s := by
  induction p using starred.induct generalizing s with
  | case1 => exact h
  | case2 rest ih =>
    obtain ⟨s', rfl, hstar⟩ := (like_cons_char '.' (by decide) _ _).mp h
    obtain ⟨s'', rfl, hrest⟩ := (like_cons_char '*' (by decide) _ _).mp hstar
    exact .wildcard dotStar (starred rest) s'' (ih s'' hrest)
  | case3 c rest hstar ih =>
    rw [starred]
    · by_cases hc : c = '%'
      · subst hc
        obtain ⟨t, s', rfl, hrest⟩ := (like_percent _ _).mp h
        exact .wildcard t (starred rest) s' (ih s' hrest)
      · obtain ⟨s', rfl, hrest⟩ := (like_cons_char c hc _ _).mp h
        exact .char c (starred rest) s' hc (ih s' hrest)
    · exact hstar

theorem likeMatch_iff (s p : String) (h : '_' ∉ p.toList) :
    likeMatch p false s = true ↔ Like (starred p.toList) s.toList ∧ Settled p.toList s.toList := by
  change simpleLikeMatch s.toList (globToRegex p.toList) = true ↔ _
  rw [simpleLikeMatch_iff, splitStars_globToRegex p.toList h, ← like_iff_glob,
    ← splitStars_globToRegex p.toList h]
  exact and_congr_right (tight_iff_settled p.toList s.toList h)

/-- LIKE is what its pattern says exactly when a text that matches has no proper start that
matches with `.*` as a wildcard, unless the pattern ends with one, and a text that matches only
with `.*` as a wildcard has such a start. -/
theorem like_iff (s p : String) (h : '_' ∉ p.toList) :
    (likeMatch p false s = true ↔ Like p.toList s.toList) ↔
      (Like p.toList s.toList → Settled p.toList s.toList) ∧
      (Like (starred p.toList) s.toList → Settled p.toList s.toList →
        Like p.toList s.toList) := by
  rw [likeMatch_iff s p h]
  constructor
  · intro hiff
    exact ⟨fun hlike => (hiff.mpr hlike).2, fun hstarred hsettled => hiff.mp ⟨hstarred, hsettled⟩⟩
  · rintro ⟨hsettled, hback⟩
    exact ⟨fun hm => hback hm.1 hm.2, fun hlike => ⟨like_starred _ _ hlike, hsettled hlike⟩⟩

theorem starred_eq (p : List Char) (h : ¬ dotStar <:+: p) : starred p = p := by
  induction p using starred.induct with
  | case1 => rfl
  | case2 rest ih => exact absurd (List.prefix_append dotStar rest).isInfix h
  | case3 c rest hstar ih =>
    rw [starred]
    · rw [ih fun hpart => h (hpart.trans (List.suffix_cons c rest).isInfix)]
    · exact hstar

/-- Without `.*` in the pattern, LIKE goes wrong only on a text that matches and has a proper start
that matches as well. -/
theorem like_iff_of_no_dotStar (s p : String) (h : '_' ∉ p.toList)
    (hdot : ¬ dotStar <:+: p.toList) :
    likeMatch p false s = true ↔ Like p.toList s.toList ∧
      (p.toList.getLast? = some '%' ∨ ∀ v, v <+: s.toList → Like p.toList v → v = s.toList) := by
  rw [likeMatch_iff s p h, Settled, starred_eq p.toList hdot]

theorem like_iff_once :
    likeMatch "a%b" false "axb" = true ↔ Like "a%b".toList "axb".toList := by
  have hmatch := (likeMatch_iff "axb" "a%b" (by decide)).mp (by decide +kernel)
  refine (like_iff "axb" "a%b" (by decide)).mpr ⟨fun _ => hmatch.2, fun _ _ => ?_⟩
  exact .char 'a' _ _ (by decide) (.wildcard ['x'] _ _ (.char 'b' _ _ (by decide) .nil))

/-- `abb` matches `a%b`, but the first `b` is taken for the last; `x` does not match `.*`, but the
dot and the asterisk are taken for a wildcard. -/
theorem like_mismatches :
    (likeMatch "a%b" false "abb" = false ∧ Like "a%b".toList "abb".toList) ∧
      (likeMatch ".*" false "x" = true ∧ ¬ Like ".*".toList "x".toList) := by
  refine ⟨⟨by decide +kernel, ?_⟩, by decide +kernel, ?_⟩
  · exact .char 'a' _ _ (by decide) (.wildcard ['b'] _ _ (.char 'b' _ _ (by decide) .nil))
  · intro h
    obtain ⟨s', hs, _⟩ := (like_cons_char '.' (by decide) ['*'] ['x']).mp h
    cases hs

end InfraLens.Query
