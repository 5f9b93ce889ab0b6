import InfraLens.LibJsonText
import InfraLens.Rows

/-! What the JSON texts of the attribute columns say about the values they were written from
(`json_opt` and `json_map` in sstable.rs). `AnyValue` is written untagged, so bytes and an array
of small integers have the same text. -/
namespace InfraLens.StoredJson
open LibBincode LibJsonText LibText Model
open Rows (Json jsonOpt jsonMap)

/-! ### Texts -/

/-- Neither infinite nor not a number: the exponent is not all ones. -/
def IsFinite (d : F64) : Prop := d.bits.toNat / 4503599627370496 % 2048 ≠ 2047

instance decidableIsFinite (d : F64) : Decidable (IsFinite d) := inferInstanceAs (Decidable (_ ≠ _))

/-- How finite doubles are written: with a point or an exponent, and each in its own way. -/
structure DoubleText where
  text : F64 → List Char
  number : ∀ d, IsFinite d → text d ≠ [] ∧ ∀ c ∈ text d, isNumberChar c = true
  marked : ∀ d, IsFinite d → ∃ c ∈ text d, c = '.' ∨ c = 'e'
  inj : ∀ d e, IsFinite d → IsFinite e → text d = text e → d = e

theorem mem_decimalInt (i : Int) (c : Char) (h : c ∈ decimalInt i) :
    c = '-' ∨ c.isDigit = true := by
  unfold decimalInt at h
  split at h
  · cases List.mem_cons.mp h with
    | inl hminus => exact Or.inl hminus
    | inr hmem => exact Or.inr (isDigit_decimal _ c hmem)
  · exact Or.inr (isDigit_decimal _ c h)

theorem isNumberChar_decimalInt (i : Int) (c : Char) (h : c ∈ decimalInt i) :
    isNumberChar c = true := by
  cases mem_decimalInt i c h with
  | inl hminus => rw [hminus]; decide
  | inr hdigit => simp [isNumberChar, hdigit]

theorem decimalInt_ne_nil (i : Int) : decimalInt i ≠ [] := by
  unfold decimalInt
  split
  · exact List.cons_ne_nil _ _
  · exact decimal_ne_nil _

def intText (i : Int) : NumberText :=
  ⟨decimalInt i, decimalInt_ne_nil i, isNumberChar_decimalInt i⟩

theorem intText_inj (i j : Int64) (h : intText i.toInt = intText j.toInt) : i = j := by
  have hread := congrArg (fun n => parseI64 n.1) h
  exact Option.some.inj ((parseI64_decimalInt i).symm.trans (hread.trans (parseI64_decimalInt j)))

section Values
variable (doubles : DoubleText)

mutual

/-- The document serde_json writes. A double that is not finite is written as null. -/
def toDoc : AnyValue → Doc
  | .string s => .string s.1
  | .bool b => .bool b
  | .int i => .number (intText i.toInt)
  | .double d => if h : IsFinite d then .number ⟨doubles.text d, doubles.number d h⟩ else .null
  | .bytes b => .array (b.1.map fun x => .number (intText x.toNat))
  | .array vs => .array (toDocs vs)
  | .map es => .object (toEntries es)

def toDocs : List AnyValue → List Doc
  | [] => []
  | v :: vs => toDoc v :: toDocs vs

def toEntries : List (Str × AnyValue) → List (String × Doc)
  | [] => []
  | (k, v) :: es => (k.1, toDoc v) :: toEntries es

end

theorem toDocs_eq (vs : List AnyValue) : toDocs doubles vs = vs.map (toDoc doubles) := by
  induction vs with
  | nil => rfl
  | cons v vs ih => rw [toDocs, ih, List.map_cons]

theorem toEntries_eq (es : List (Str × AnyValue)) :
    toEntries doubles es = es.map fun e => (e.1.1, toDoc doubles e.2) := by
  induction es with
  | nil => rfl
  | cons e es ih => rw [toEntries, ih, List.map_cons]

/-- What `serde_json::to_string` gives. -/
structure Writes (json : Json) : Prop where
  value : ∀ v t, json.value v = some t ↔ t.1.toList = (toDoc doubles v).write
  map : ∀ m t, json.map m = some t ↔ t.1.toList = (toDoc doubles (.map m.entries)).write

end Values

/-! ### Equality of values -/

theorem anyValue_tree {P : AnyValue → Prop} (string : ∀ s, P (.string s)) (bool : ∀ b, P (.bool b))
    (int : ∀ i, P (.int i)) (double : ∀ d, P (.double d)) (bytes : ∀ b, P (.bytes b))
    (array : ∀ vs, (∀ v ∈ vs, P v) → P (.array vs))
    (map : ∀ es, (∀ e ∈ es, P e.2) → P (.map es)) (v : AnyValue) : P v :=
  @AnyValue.rec P (fun vs => ∀ v ∈ vs, P v) (fun es => ∀ e ∈ es, P e.2) (fun e => P e.2)
    string bool int double bytes array map (fun _ h => absurd h List.not_mem_nil)
    (fun _ _ hv hvs => List.forall_mem_cons.mpr ⟨hv, hvs⟩)
    (fun _ h => absurd h List.not_mem_nil)
    (fun _ _ he hes => List.forall_mem_cons.mpr ⟨he, hes⟩) (fun _ _ hv => hv) v

mutual

/-- Equality of values: maps are compared by the values of their keys, in whatever order the entries
come, and doubles by their bits. -/
def Same : AnyValue → AnyValue → Prop
  | .string s, v => v = .string s
  | .bool b, v => v = .bool b
  | .int i, v => v = .int i
  | .double d, v => v = .double d
  | .bytes b, v => v = .bytes b
  | .array us, v => ∃ vs, v = .array vs ∧ SameItems us vs
  | .map es, v => ∃ fs, v = .map fs ∧ es.length = fs.length ∧ SameEntries es fs

def SameItems : List AnyValue → List AnyValue → Prop
  | [], vs => vs = []
  | u :: us, vs => ∃ v ws, vs = v :: ws ∧ Same u v ∧ SameItems us ws

def SameEntries : List (Str × AnyValue) → List (Str × AnyValue) → Prop
  | [], _ => True
  | (k, u) :: es, fs => (∃ v, (k, v) ∈ fs ∧ Same u v) ∧ SameEntries es fs

end

theorem sameItems_refl (vs : List AnyValue) (h : ∀ v ∈ vs, Same v v) : SameItems vs vs := by
  induction vs with
  | nil => rfl
  | cons v vs ih =>
    rw [List.forall_mem_cons] at h
    exact ⟨v, vs, rfl, h.1, ih h.2⟩

theorem sameItems_mem (us vs : List AnyValue) (h : SameItems us vs) (u : AnyValue) (hu : u ∈ us) :
    ∃ v ∈ vs, Same u v := by
  induction us generalizing vs with
  | nil => exact absurd hu List.not_mem_nil
  | cons a us ih =>
    obtain ⟨v, ws, rfl, hsame, hitems⟩ := h
    cases List.mem_cons.mp hu with
    | inl heq => exact ⟨v, List.mem_cons_self, heq ▸ hsame⟩
    | inr hmem =>
      obtain ⟨w, hw, hsame'⟩ := ih ws hitems hmem
      exact ⟨w, List.mem_cons_of_mem _ hw, hsame'⟩

theorem sameItems_append (l : List AnyValue) (u v : AnyValue) (us vs : List AnyValue)
    (h : SameItems (l ++ u :: us) (l ++ v :: vs)) : Same u v := by
  induction l with
  | nil =>
    obtain ⟨w, ws, heq, hsame, _⟩ := h
    cases heq
    exact hsame
  | cons a l ih =>
    obtain ⟨w, ws, heq, _, hitems⟩ := h
    cases heq
    exact ih hitems

theorem sameEntries_iff (es fs : List (Str × AnyValue)) :
    SameEntries es fs ↔ ∀ e ∈ es, ∃ v, (e.1, v) ∈ fs ∧ Same e.2 v := by
  induction es with
  | nil => simp [SameEntries]
  | cons e es ih => rw [SameEntries, ih, List.forall_mem_cons]

theorem same_refl (v : AnyValue) : Same v v := by
  induction v using anyValue_tree with
  | array vs ih => exact ⟨vs, rfl, sameItems_refl vs ih⟩
  | map es ih =>
    refine ⟨es, rfl, rfl, (sameEntries_iff es es).mpr ?_⟩
    intro e he
    exact ⟨e.2, he, ih e he⟩
  | _ => rfl

/-! ### Values inside of values -/

/-- A value, or one inside of it. -/
inductive Within (w : AnyValue) : AnyValue → Prop where
  | self : Within w w
  | item {v : AnyValue} {vs : List AnyValue} (hmem : v ∈ vs) (h : Within w v) :
    Within w (.array vs)
  | entry {e : Str × AnyValue} {es : List (Str × AnyValue)} (hmem : e ∈ es) (h : Within w e.2) :
    Within w (.map es)

theorem within_same {u v w : AnyValue} (hw : Within w u) (h : Same u v) :
    ∃ w', Within w' v ∧ Same w w' := by
  induction hw generalizing v with
  | self => exact ⟨v, .self, h⟩
  | item hmem _ ih =>
    obtain ⟨vs, rfl, hitems⟩ := h
    obtain ⟨v, hv, hsame⟩ := sameItems_mem _ vs hitems _ hmem
    obtain ⟨w', hw', hsame'⟩ := ih hsame
    exact ⟨w', .item hv hw', hsame'⟩
  | entry hmem _ ih =>
    obtain ⟨fs, rfl, _, hentries⟩ := h
    obtain ⟨v, hv, hsame⟩ := (sameEntries_iff _ _).mp hentries _ hmem
    obtain ⟨w', hw', hsame'⟩ := ih hsame
    exact ⟨w', .entry hv hw', hsame'⟩

/-- The doubles are finite and the keys of each map distinct. -/
structure Proper (v : AnyValue) : Prop where
  finite : ∀ d, Within (.double d) v → IsFinite d
  keys : ∀ es, Within (.map es) v → (es.map Prod.fst).Nodup

theorem proper_int (i : Int64) : Proper (.int i) := by
  refine ⟨fun d hd => ?_, fun es hes => ?_⟩
  · cases hd
  · cases hes

theorem proper_bytes (b : Vec UInt8) : Proper (.bytes b) := by
  refine ⟨fun d hd => ?_, fun es hes => ?_⟩
  · cases hd
  · cases hes

theorem proper_array (vs : List AnyValue) : Proper (.array vs) ↔ ∀ v ∈ vs, Proper v := by
  constructor
  · intro h v hv
    exact ⟨fun d hd => h.finite d (.item hv hd), fun es hes => h.keys es (.item hv hes)⟩
  · intro h
    refine ⟨fun d hd => ?_, fun es hes => ?_⟩
    · cases hd with
      | item hmem hw => exact (h _ hmem).finite d hw
    · cases hes with
      | item hmem hw => exact (h _ hmem).keys es hw

theorem proper_map (es : List (Str × AnyValue)) :
    Proper (.map es) ↔ (es.map Prod.fst).Nodup ∧ ∀ e ∈ es, Proper e.2 := by
  constructor
  · intro h
    refine ⟨h.keys es .self, fun e he => ?_⟩
    exact ⟨fun d hd => h.finite d (.entry he hd), fun fs hfs => h.keys fs (.entry he hfs)⟩
  · intro h
    obtain ⟨hkeys, hes⟩ := h
    refine ⟨fun d hd => ?_, fun fs hfs => ?_⟩
    · cases hd with
      | entry hmem hw => exact (hes _ hmem).finite d hw
    · cases hfs with
      | self => exact hkeys
      | entry hmem hw => exact (hes _ hmem).keys fs hw

/-! ### Bytes and arrays -/

def byteInt (x : UInt8) : Int64 := Int64.ofNat x.toNat

theorem toInt_byteInt (x : UInt8) : (byteInt x).toInt = x.toNat :=
  Int64.toInt_ofNat_of_lt (Nat.lt_trans x.toNat_lt (by decide))

/-- The array that is written like the bytes. -/
def byteItems (b : Vec UInt8) : List AnyValue := b.1.map fun x => .int (byteInt x)

/-- Somewhere in the value there are bytes, or an array that could be bytes. -/
def Ambiguous (v : AnyValue) : Prop :=
  ∃ b : Vec UInt8, Within (.bytes b) v ∨ Within (.array (byteItems b)) v

theorem Ambiguous.item {v : AnyValue} {vs : List AnyValue} (h : Ambiguous v) (hv : v ∈ vs) :
    Ambiguous (.array vs) := by
  obtain ⟨b, hb⟩ := h
  exact ⟨b, hb.imp (Within.item hv) (Within.item hv)⟩

theorem Ambiguous.entry {e : Str × AnyValue} {es : List (Str × AnyValue)} (h : Ambiguous e.2)
    (he : e ∈ es) : Ambiguous (.map es) := by
  obtain ⟨b, hb⟩ := h
  exact ⟨b, hb.imp (Within.entry he) (Within.entry he)⟩

theorem ambiguous_map (es : List (Str × AnyValue)) :
    Ambiguous (.map es) ↔ ∃ e ∈ es, Ambiguous e.2 := by
  constructor
  · intro h
    obtain ⟨b, hbytes | harray⟩ := h
    · cases hbytes with
      | entry he hw => exact ⟨_, he, b, Or.inl hw⟩
    · cases harray with
      | entry he hw => exact ⟨_, he, b, Or.inr hw⟩
  · intro h
    obtain ⟨e, he, hamb⟩ := h
    exact hamb.entry he

theorem sameItems_ints (is : List Int64) (vs : List AnyValue)
    (h : SameItems (is.map .int) vs) : vs = is.map .int := by
  induction is generalizing vs with
  | nil => exact h
  | cons i is ih =>
    obtain ⟨v, ws, rfl, hv, hws⟩ := h
    rw [List.map_cons, ih ws hws, hv]

theorem ambiguous_of_same {u v : AnyValue} (h : Same u v) (hu : Ambiguous u) : Ambiguous v := by
  obtain ⟨b, hbytes | harray⟩ := hu
  · obtain ⟨w, hw, hsame⟩ := within_same hbytes h
    rw [show w = .bytes b from hsame] at hw
    exact ⟨b, Or.inl hw⟩
  · obtain ⟨w, hw, vs, rfl, hitems⟩ := within_same harray h
    have hvs : vs = byteItems b := by
      have hints : byteItems b = (b.1.map byteInt).map .int := by
        rw [List.map_map]
        rfl
      rw [hints] at hitems ⊢
      exact sameItems_ints _ vs hitems
    rw [hvs] at hw
    exact ⟨b, Or.inr hw⟩

/-! ### From documents back to values -/

section Documents
variable {doubles : DoubleText}

theorem toDoc_double (d : F64) (h : IsFinite d) :
    toDoc doubles (.double d) = .number ⟨doubles.text d, doubles.number d h⟩ :=
  dif_pos h

theorem toDoc_bytes (b : Vec UInt8) :
    toDoc doubles (.bytes b) = toDoc doubles (.array (byteItems b)) := by
  rw [toDoc, toDoc, toDocs_eq, byteItems, List.map_map]
  refine congrArg Doc.array (List.map_congr_left fun x _ => ?_)
  rw [Function.comp_apply, toDoc, toInt_byteInt]

/-- The kind of text a value has; it does not tell integers from doubles and bytes from arrays. -/
def textShape : AnyValue → Shape
  | .string _ => .string
  | .bool b => .bool b
  | .int _ => .number
  | .double _ => .number
  | .bytes _ => .array
  | .array _ => .array
  | .map _ => .object

theorem shape_toDoc (v : AnyValue) (hv : Proper v) : (toDoc doubles v).shape = textShape v := by
  cases v with
  | double d =>
    rw [toDoc_double d (hv.finite d .self)]
    rfl
  | _ => rfl

theorem shape_eq_of_toDoc {u v : AnyValue} (hu : Proper u) (hv : Proper v)
    (h : toDoc doubles u = toDoc doubles v) : textShape u = textShape v := by
  rw [← @shape_toDoc doubles u hu, h, shape_toDoc v hv]

theorem text_ne_decimalInt (d : F64) (h : IsFinite d) (i : Int) :
    doubles.text d ≠ decimalInt i := by
  intro heq
  obtain ⟨c, hc, hmark⟩ := doubles.marked d h
  rw [heq] at hc
  cases mem_decimalInt i c hc with
  | inl hminus => cases hmark with
    | inl hpoint => rw [hminus] at hpoint; exact absurd hpoint (by decide)
    | inr hexp => rw [hminus] at hexp; exact absurd hexp (by decide)
  | inr hdigit => cases hmark with
    | inl hpoint => rw [hpoint] at hdigit; exact absurd hdigit (by decide)
    | inr hexp => rw [hexp] at hdigit; exact absurd hdigit (by decide)

theorem toDoc_int_inj (u : AnyValue) (hu : Proper u) (i : Int64)
    (h : toDoc doubles u = toDoc doubles (.int i)) : u = .int i := by
  have hshape := shape_eq_of_toDoc hu (proper_int i) h
  cases u with
  | int j => exact congrArg AnyValue.int (intText_inj j i (Doc.number.inj h))
  | double d =>
    have hd := hu.finite d .self
    rw [toDoc_double d hd] at h
    exact absurd (congrArg Subtype.val (Doc.number.inj h)) (text_ne_decimalInt d hd _)
  | _ => cases hshape

theorem map_inj_on {α β : Type} (f : α → β) (xs ys : List α)
    (hinj : ∀ x ∈ xs, ∀ y ∈ ys, f x = f y → x = y) (h : xs.map f = ys.map f) : xs = ys := by
  induction xs generalizing ys with
  | nil => exact (List.map_eq_nil_iff.mp h.symm).symm
  | cons x xs ih =>
    cases ys with
    | nil => cases h
    | cons y ys =>
      obtain ⟨hhead, htail⟩ := List.cons.inj h
      have hx := hinj x List.mem_cons_self y List.mem_cons_self hhead
      have hxs := ih ys (fun a ha b hb => hinj a (List.mem_cons_of_mem _ ha) b
        (List.mem_cons_of_mem _ hb)) htail
      exact congrArg₂ List.cons hx hxs

theorem byteItems_inj (b : Vec UInt8) (vs : List AnyValue) (hvs : ∀ v ∈ vs, Proper v)
    (h : toDoc doubles (.array vs) = toDoc doubles (.bytes b)) : vs = byteItems b := by
  rw [toDoc_bytes, toDoc, toDoc, toDocs_eq, toDocs_eq] at h
  refine map_inj_on _ vs (byteItems b) (fun v hv w hw hdoc => ?_) (Doc.array.inj h)
  obtain ⟨x, _, rfl⟩ := List.mem_map.mp hw
  exact toDoc_int_inj v (hvs v hv) (byteInt x) hdoc

theorem toDoc_inj (v : AnyValue) (hv : Proper v) (hclear : ¬ Ambiguous v) (u : AnyValue)
    (hu : Proper u) (h : toDoc doubles u = toDoc doubles v) : u = v := by
  have hshape := shape_eq_of_toDoc hu hv h
  induction v using anyValue_tree generalizing u with
  | string s =>
    cases u with
    | string s' => exact congrArg AnyValue.string (Subtype.ext (Doc.string.inj h))
    | _ => cases hshape
  | bool b =>
    cases u with
    | bool b' => exact congrArg AnyValue.bool (Doc.bool.inj h)
    | _ => cases hshape
  | int i => exact toDoc_int_inj u hu i h
  | double d =>
    have hd := hv.finite d .self
    rw [toDoc_double d hd] at h
    cases u with
    | int i =>
      exact absurd (congrArg Subtype.val (Doc.number.inj h)).symm (text_ne_decimalInt d hd _)
    | double e =>
      have he := hu.finite e .self
      rw [toDoc_double e he] at h
      have htext := congrArg Subtype.val (Doc.number.inj h)
      exact congrArg AnyValue.double (doubles.inj e d he hd htext)
    | _ => cases hshape
  | bytes b => exact absurd ⟨b, Or.inl .self⟩ hclear
  | array vs ih =>
    rw [proper_array] at hv
    cases u with
    | bytes b =>
      -- the items are small integers, so the array is ambiguous
      have hitems := byteItems_inj b vs hv h.symm
      rw [hitems] at hclear
      exact absurd ⟨b, Or.inr .self⟩ hclear
    | array us =>
      rw [proper_array] at hu
      rw [toDoc, toDoc, toDocs_eq, toDocs_eq] at h
      refine congrArg AnyValue.array (map_inj_on _ us vs (fun u' hu' v' hv' hdoc => ?_)
        (Doc.array.inj h))
      exact ih v' hv' (hv v' hv') (fun hamb => hclear (hamb.item hv')) u' (hu u' hu') hdoc
        (shape_eq_of_toDoc (hu u' hu') (hv v' hv') hdoc)
    | _ => cases hshape
  | map es ih =>
    rw [proper_map] at hv
    cases u with
    | map fs =>
      rw [proper_map] at hu
      rw [toDoc, toDoc, toEntries_eq, toEntries_eq] at h
      refine congrArg AnyValue.map (map_inj_on _ fs es (fun f hf e he heq => ?_)
        (Doc.object.inj h))
      obtain ⟨hkey, hdoc⟩ := Prod.mk.inj heq
      refine Prod.ext (Subtype.ext hkey) ?_
      exact ih e he (hv.2 e he) (fun hamb => hclear (hamb.entry he)) f.2 (hu.2 f hf) hdoc
        (shape_eq_of_toDoc (hu.2 f hf) (hv.2 e he) hdoc)
    | _ => cases hshape

/-! ### Two values with one document -/

theorem replace_entry {es : List (Str × AnyValue)} (hkeys : (es.map Prod.fst).Nodup)
    {e : Str × AnyValue} (he : e ∈ es) (u : AnyValue) (hdoc : toDoc doubles u = toDoc doubles e.2)
    (hne : ¬ Same u e.2) :
    ∃ fs, fs.map Prod.fst = es.map Prod.fst ∧
      toDoc doubles (.map fs) = toDoc doubles (.map es) ∧ ¬ Same (.map fs) (.map es) ∧
      ∀ f ∈ fs, f ∈ es ∨ f.2 = u := by
  obtain ⟨l, r, rfl⟩ := List.append_of_mem he
  refine ⟨l ++ (e.1, u) :: r, ?_, ?_, ?_, ?_⟩
  · simp only [List.map_append, List.map_cons]
  · simp only [toDoc, toEntries_eq, List.map_append, List.map_cons, hdoc]
  · intro hsame
    obtain ⟨gs, hgs, _, hentries⟩ := hsame
    cases hgs
    have hmem : (e.1, u) ∈ l ++ (e.1, u) :: r :=
      List.mem_append_right l List.mem_cons_self
    obtain ⟨v, hv, hsame⟩ := (sameEntries_iff _ _).mp hentries _ hmem
    have heq := List.inj_on_of_nodup_map hkeys hv he rfl
    rw [← heq] at hne
    exact hne hsame
  · intro f hf
    cases List.mem_append.mp hf with
    | inl hl => exact Or.inl (List.mem_append_left _ hl)
    | inr hr =>
      cases List.mem_cons.mp hr with
      | inl heq => exact Or.inr (congrArg Prod.snd heq)
      | inr htail => exact Or.inl (List.mem_append_right l (List.mem_cons_of_mem _ htail))

/-- If a part of a value can be confused with another, the whole value can. -/
theorem exists_confused {w v : AnyValue} (hwithin : Within w v) (hv : Proper v) {w' : AnyValue}
    (hw' : Proper w') (hdoc : toDoc doubles w' = toDoc doubles w) (hne : ¬ Same w' w) :
    ∃ u, Proper u ∧ toDoc doubles u = toDoc doubles v ∧ ¬ Same u v := by
  induction hwithin with
  | self => exact ⟨w', hw', hdoc, hne⟩
  | @item v vs hmem _ ih =>
    rw [proper_array] at hv
    obtain ⟨u, hu, hdocu, hneu⟩ := ih (hv v hmem)
    obtain ⟨l, r, rfl⟩ := List.append_of_mem hmem
    refine ⟨.array (l ++ u :: r), ?_, ?_, ?_⟩
    · rw [proper_array]
      intro x hx
      cases List.mem_append.mp hx with
      | inl hl => exact hv x (List.mem_append_left _ hl)
      | inr hr =>
        cases List.mem_cons.mp hr with
        | inl heq => exact heq ▸ hu
        | inr htail => exact hv x (List.mem_append_right l (List.mem_cons_of_mem _ htail))
    · simp only [toDoc, toDocs_eq, List.map_append, List.map_cons, hdocu]
    · intro hsame
      obtain ⟨ws, hws, hitems⟩ := hsame
      cases hws
      exact hneu (sameItems_append l u v r r hitems)
  | @entry e es hmem _ ih =>
    rw [proper_map] at hv
    obtain ⟨u, hu, hdocu, hneu⟩ := ih (hv.2 e hmem)
    obtain ⟨fs, hkeys, hdocs, hsame, hfs⟩ := replace_entry hv.1 hmem u hdocu hneu
    refine ⟨.map fs, ?_, hdocs, hsame⟩
    rw [proper_map, hkeys]
    refine ⟨hv.1, fun f hf => ?_⟩
    cases hfs f hf with
    | inl hes => exact hv.2 f hes
    | inr heq => exact heq ▸ hu

theorem proper_byteItems (b : Vec UInt8) : Proper (.array (byteItems b)) := by
  rw [proper_array]
  intro v hv
  obtain ⟨x, _, rfl⟩ := List.mem_map.mp hv
  exact proper_int (byteInt x)

theorem exists_of_ambiguous (v : AnyValue) (hv : Proper v) (h : Ambiguous v) :
    ∃ u, Proper u ∧ toDoc doubles u = toDoc doubles v ∧ ¬ Same u v := by
  obtain ⟨b, hbytes | harray⟩ := h
  · refine exists_confused hbytes hv (proper_byteItems b) (toDoc_bytes b).symm ?_
    intro hsame
    obtain ⟨vs, hvs, _⟩ := hsame
    cases hvs
  · refine exists_confused harray hv (proper_bytes b) (toDoc_bytes b) ?_
    intro hsame
    cases hsame

end Documents

/-! ### What is stored -/

section Stored
variable (json : Json)

/-- The text of the first is one of the second, the entries of its maps in some order. -/
def StoredAlike (u v : AnyValue) : Prop :=
  ∃ v' t, Proper v' ∧ Same v' v ∧ jsonOpt json (some u) = some t ∧ jsonOpt json (some v') = some t

def ProperMap (m : HashMap Str AnyValue) : Prop := ∀ e ∈ m.entries, Proper e.2

/-- The map is empty or there is a text for it. -/
def WrittenMap (m : HashMap Str AnyValue) : Prop :=
  m.entries = [] ∨ ∃ t, jsonMap json m = some t

def SameMap (m m' : HashMap Str AnyValue) : Prop := Same (.map m.entries) (.map m'.entries)

def StoredAlikeMap (m m' : HashMap Str AnyValue) : Prop :=
  ∃ m'', ProperMap m'' ∧ WrittenMap json m'' ∧ SameMap m'' m' ∧ jsonMap json m = jsonMap json m''

variable {json} {doubles : DoubleText}

theorem ProperMap.proper {m : HashMap Str AnyValue} (h : ProperMap m) : Proper (.map m.entries) :=
  (proper_map m.entries).mpr ⟨m.nodup, h⟩

theorem entries_of_jsonMap_none {m : HashMap Str AnyValue} (hm : WrittenMap json m)
    (h : jsonMap json m = none) : m.entries = [] := by
  cases hm with
  | inl hnil => exact hnil
  | inr hsome =>
    obtain ⟨t, ht⟩ := hsome
    rw [h] at ht
    cases ht

theorem ne_nil_of_jsonMap {m : HashMap Str AnyValue} {t : Str} (h : jsonMap json m = some t) :
    m.entries ≠ [] := by
  intro hnil
  rw [jsonMap, if_pos (List.isEmpty_iff.mpr hnil)] at h
  cases h

theorem exists_map_of_ambiguous (m : HashMap Str AnyValue) (hm : ProperMap m)
    {e : Str × AnyValue} (he : e ∈ m.entries) (hamb : Ambiguous e.2) :
    ∃ m' : HashMap Str AnyValue, ProperMap m' ∧ m'.entries ≠ [] ∧
      toDoc doubles (.map m'.entries) = toDoc doubles (.map m.entries) ∧ ¬ SameMap m' m := by
  obtain ⟨u, hu, hdoc, hne⟩ := @exists_of_ambiguous doubles e.2 (hm e he) hamb
  obtain ⟨fs, hkeys, hdocs, hother, hfs⟩ := replace_entry m.nodup he u hdoc hne
  have hlength : fs.length = m.entries.length := by
    simpa using congrArg List.length hkeys
  refine ⟨⟨fs, hkeys ▸ m.nodup, hlength ▸ m.bounded⟩, ?_, ?_, hdocs, hother⟩
  · intro f hf
    cases hfs f hf with
    | inl hes => exact hm f hes
    | inr heq => exact heq ▸ hu
  · intro hnil
    have hpos := List.length_pos_of_mem he
    rw [← hlength, show fs = [] from hnil] at hpos
    exact absurd hpos (Nat.lt_irrefl 0)

variable (hjson : Writes doubles json)
include hjson

theorem toDoc_of_value {u v : AnyValue} {t : Str} (hu : jsonOpt json (some u) = some t)
    (hv : jsonOpt json (some v) = some t) : toDoc doubles u = toDoc doubles v :=
  write_injective (((hjson.value u t).mp hu).symm.trans ((hjson.value v t).mp hv))

theorem jsonMap_iff {m : HashMap Str AnyValue} (hm : m.entries ≠ []) (t : Str) :
    jsonMap json m = some t ↔ t.1.toList = (toDoc doubles (.map m.entries)).write := by
  rw [jsonMap, if_neg (by rwa [List.isEmpty_iff])]
  exact hjson.map m t

theorem toDoc_of_map {m m' : HashMap Str AnyValue} {t : Str} (hm : jsonMap json m = some t)
    (hm' : jsonMap json m' = some t) :
    toDoc doubles (.map m.entries) = toDoc doubles (.map m'.entries) := by
  have htext := (jsonMap_iff hjson (ne_nil_of_jsonMap hm) t).mp hm
  have htext' := (jsonMap_iff hjson (ne_nil_of_jsonMap hm') t).mp hm'
  exact write_injective (htext.symm.trans htext')

theorem value_determined_iff (v : AnyValue) (hv : Proper v)
    (hwritten : ∃ t, jsonOpt json (some v) = some t) :
    (∀ u, Proper u → StoredAlike json u v → Same u v) ↔ ¬ Ambiguous v := by
  constructor
  · intro h hamb
    obtain ⟨u, hu, hdoc, hne⟩ := @exists_of_ambiguous doubles v hv hamb
    obtain ⟨t, ht⟩ := hwritten
    refine hne (h u hu ⟨v, t, hv, same_refl v, ?_, ht⟩)
    refine (hjson.value u t).mpr ?_
    rw [hdoc]
    exact (hjson.value v t).mp ht
  · intro hclear u hu hstored
    obtain ⟨v', t, hv', hsame, hut, hvt⟩ := hstored
    have hclear' : ¬ Ambiguous v' := fun hamb => hclear (ambiguous_of_same hsame hamb)
    have heq := toDoc_inj v' hv' hclear' u hu (toDoc_of_value hjson hut hvt)
    rw [heq]
    exact hsame

theorem map_determined_iff (m : HashMap Str AnyValue) (hm : ProperMap m)
    (hwritten : WrittenMap json m) :
    (∀ m', ProperMap m' → WrittenMap json m' → StoredAlikeMap json m' m → SameMap m' m) ↔
      ∀ e ∈ m.entries, ¬ Ambiguous e.2 := by
  constructor
  · intro h e he hamb
    obtain ⟨m', hm', hnil', hdoc, hother⟩ := @exists_map_of_ambiguous doubles m hm e he hamb
    have hnil : m.entries ≠ [] := List.ne_nil_of_mem he
    obtain ⟨t, ht⟩ := hwritten.resolve_left hnil
    have ht' : jsonMap json m' = some t := by
      rw [jsonMap_iff hjson hnil', hdoc, ← jsonMap_iff hjson hnil]
      exact ht
    exact hother (h m' hm' (Or.inr ⟨t, ht'⟩) ⟨m, hm, hwritten, same_refl _, ht'.trans ht.symm⟩)
  · intro hclear m' hm' hwritten' hstored
    obtain ⟨m'', hm'', hwritten'', hsame, heq⟩ := hstored
    have hentries : m'.entries = m''.entries := by
      cases ht : jsonMap json m'' with
      | none =>
        rw [entries_of_jsonMap_none hwritten'' ht,
          entries_of_jsonMap_none hwritten' (heq.trans ht)]
      | some t =>
        have hclear'' : ¬ Ambiguous (.map m''.entries) := by
          intro hamb
          obtain ⟨e, he, hamb'⟩ := (ambiguous_map _).mp (ambiguous_of_same hsame hamb)
          exact hclear e he hamb'
        have hdoc := toDoc_of_map hjson (heq.trans ht) ht
        exact AnyValue.map.inj (toDoc_inj _ hm''.proper hclear'' _ hm'.proper hdoc)
    rw [SameMap, hentries]
    exact hsame

/-- A stored text determines the value it was written from, up to the order of the entries of maps,
exactly when the value has no bytes in it and no array of integers that could be bytes, the empty
array included; the text of an attribute map determines the map when this holds of its values. -/
theorem stored_json_iff :
    (∀ v, Proper v → (∃ t, jsonOpt json (some v) = some t) →
      ((∀ u, Proper u → StoredAlike json u v → Same u v) ↔ ¬ Ambiguous v)) ∧
    (∀ m, ProperMap m → WrittenMap json m →
      ((∀ m', ProperMap m' → WrittenMap json m' → StoredAlikeMap json m' m → SameMap m' m) ↔
        ∀ e ∈ m.entries, ¬ Ambiguous e.2)) :=
  ⟨value_determined_iff hjson, map_determined_iff hjson⟩

end Stored

/-! ### Doubles by the decimal of their bits -/

def bitsText : DoubleText where
  text d := decimal d.bits.toNat ++ ['.', '0']
  number d _ := by
    refine ⟨List.append_ne_nil_of_left_ne_nil (decimal_ne_nil _) _, ?_⟩
    intro c hc
    cases List.mem_append.mp hc with
    | inl hdigits => simp [isNumberChar, isDigit_decimal _ c hdigits]
    | inr hzero =>
      have hall : ['.', '0'].all isNumberChar = true := by decide
      exact List.all_eq_true.mp hall c hzero
  marked _ _ := ⟨'.', by simp, Or.inl rfl⟩
  inj d e _ _ h := by
    have hread := congrArg parseNat (List.append_cancel_right h)
    rw [parseNat_decimal, parseNat_decimal] at hread
    exact congrArg F64.mk (UInt64.toNat_inj.mp (Option.some.inj hread))

def toStr (cs : List Char) : Option Str :=
  if h : (String.ofList cs).toByteArray.size < 2 ^ 64 then some ⟨String.ofList cs, h⟩ else none

theorem toStr_iff (cs : List Char) (t : Str) : toStr cs = some t ↔ t.1.toList = cs := by
  constructor
  · intro h
    unfold toStr at h
    split at h
    · cases h
      exact String.toList_ofList
    · cases h
  · intro h
    subst h
    have hback : String.ofList t.1.toList = t.1 := String.ofList_toList
    have hsize : (String.ofList t.1.toList).toByteArray.size < 2 ^ 64 := by
      rw [hback]
      exact t.2
    rw [toStr, dif_pos hsize]
    exact congrArg some (Subtype.ext hback)

def bitsJson : Json where
  value v := toStr (toDoc bitsText v).write
  map m := toStr (toDoc bitsText (.map m.entries)).write
  events _ := none
  links _ := none

theorem writes_bitsJson : Writes bitsText bitsJson :=
  ⟨fun _ t => toStr_iff _ t, fun _ t => toStr_iff _ t⟩

def oneKey (v : AnyValue) : HashMap Str AnyValue :=
  ⟨[(Str.ofString "k", v)], List.nodup_singleton _, Nat.one_lt_two_pow (by decide)⟩

def nested : AnyValue := .array [.int (-1), .map (oneKey (.int 7)).entries]

theorem proper_nested : Proper nested := by
  refine (proper_array _).mpr
    (List.forall_mem_cons.mpr ⟨proper_int (-1), List.forall_mem_singleton.mpr ?_⟩)
  exact (proper_map _).mpr ⟨(oneKey (.int 7)).nodup, List.forall_mem_singleton.mpr (proper_int 7)⟩

theorem not_ambiguous_int (i : Int64) : ¬ Ambiguous (.int i) := by
  rintro ⟨b, hbytes | harray⟩
  · cases hbytes
  · cases harray

theorem not_ambiguous_nested : ¬ Ambiguous nested := by
  have hitems : ∀ v ∈ [AnyValue.int (-1), .map (oneKey (.int 7)).entries], ¬ Ambiguous v := by
    refine List.forall_mem_cons.mpr
      ⟨not_ambiguous_int (-1), List.forall_mem_singleton.mpr fun hamb => ?_⟩
    obtain ⟨e, he, hamb⟩ := (ambiguous_map _).mp hamb
    rw [List.mem_singleton.mp he] at hamb
    exact not_ambiguous_int 7 hamb
  rintro ⟨b, hbytes | harray⟩
  · cases hbytes with
    | item hmem hw => exact hitems _ hmem ⟨b, Or.inl hw⟩
  · generalize harr : AnyValue.array (byteItems b) = w at harray
    cases harray with
    | self =>
      -- the map in the array is no byte
      have hmap : .map (oneKey (.int 7)).entries ∈ byteItems b := by
        rw [AnyValue.array.inj harr]
        exact List.mem_cons_of_mem _ List.mem_cons_self
      obtain ⟨x, _, hx⟩ := List.mem_map.mp hmap
      cases hx
    | item hmem hw => exact hitems _ hmem ⟨b, Or.inr (harr ▸ hw)⟩

/-- The text of an array with a map in it is the text of no other value, and that of a map to it the
text of no other map. -/
theorem stored_json_nested :
    Writes bitsText bitsJson ∧
    (jsonOpt bitsJson (some nested) = some ⟨"[-1,\x7b\"k\":7\x7d]", by decide⟩ ∧
      ∀ u, Proper u → StoredAlike bitsJson u nested → Same u nested) ∧
    jsonMap bitsJson (oneKey nested) = some ⟨"\x7b\"k\":[-1,\x7b\"k\":7\x7d]\x7d", by decide⟩ ∧
      ∀ m, ProperMap m → WrittenMap bitsJson m → StoredAlikeMap bitsJson m (oneKey nested) →
        SameMap m (oneKey nested) := by
  have hvalue : jsonOpt bitsJson (some nested) = some ⟨"[-1,\x7b\"k\":7\x7d]", by decide⟩ :=
    (writes_bitsJson.value _ _).mpr (by decide)
  have hmap : jsonMap bitsJson (oneKey nested) =
      some ⟨"\x7b\"k\":[-1,\x7b\"k\":7\x7d]\x7d", by decide⟩ :=
    (writes_bitsJson.map _ _).mpr (by decide)
  obtain ⟨hvalues, hmaps⟩ := stored_json_iff writes_bitsJson
  exact ⟨writes_bitsJson,
    ⟨hvalue, (hvalues nested proper_nested ⟨_, hvalue⟩).mpr not_ambiguous_nested⟩,
    hmap, (hmaps (oneKey nested) (List.forall_mem_singleton.mpr proper_nested)
      (Or.inr ⟨_, hmap⟩)).mpr (List.forall_mem_singleton.mpr not_ambiguous_nested)⟩

def oneByte : AnyValue := .bytes (Vec.ofList [1])

def oneInt : AnyValue := .array [.int 1]

/-- The byte 1 and a list of the integer 1 are both stored as `[1]`, and the maps to them with one
key are stored alike. -/
theorem stored_json_confused :
    jsonOpt bitsJson (some oneByte) = some ⟨"[1]", by decide⟩ ∧
    jsonOpt bitsJson (some oneInt) = some ⟨"[1]", by decide⟩ ∧ ¬ Same oneByte oneInt ∧
    jsonMap bitsJson (oneKey oneByte) = some ⟨"\x7b\"k\":[1]\x7d", by decide⟩ ∧
    jsonMap bitsJson (oneKey oneInt) = some ⟨"\x7b\"k\":[1]\x7d", by decide⟩ ∧
    ¬ SameMap (oneKey oneByte) (oneKey oneInt) := by
  have hvalue : ¬ Same oneByte oneInt := by
    intro hsame
    cases hsame
  refine ⟨(writes_bitsJson.value _ _).mpr (by decide), (writes_bitsJson.value _ _).mpr (by decide),
    hvalue, (writes_bitsJson.map _ _).mpr (by decide), (writes_bitsJson.map _ _).mpr (by decide),
    ?_⟩
  intro hsame
  obtain ⟨fs, hfs, _, hentries⟩ := hsame
  cases hfs
  obtain ⟨v, hv, hsame⟩ := (sameEntries_iff _ _).mp hentries _ List.mem_cons_self
  cases List.mem_singleton.mp hv
  exact hvalue hsame

end InfraLens.StoredJson
