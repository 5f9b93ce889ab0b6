import InfraLens.LibText

/-! JSON texts without blanks. The numbers of a document are kept as they are written; the text of
a document determines it. -/
namespace InfraLens.LibJsonText
open LibText

/-! ### Strings -/

/-- A character inside a string. Control characters have short names or are written by number. -/
def escape (c : Char) : List Char :=
  if c = '"' then ['\\', '"']
  else if c = '\\' then ['\\', '\\']
  else if c.toNat = 8 then ['\\', 'b']
  else if c.toNat = 9 then ['\\', 't']
  else if c.toNat = 10 then ['\\', 'n']
  else if c.toNat = 12 then ['\\', 'f']
  else if c.toNat = 13 then ['\\', 'r']
  else if c.toNat < 32 then '\\' :: 'u' :: '0' :: '0' :: hexByte c.toNat.toUInt8
  else [c]

def unescapeShort (c : Char) : Char :=
  if c = 'b' then Char.ofNat 8
  else if c = 't' then Char.ofNat 9
  else if c = 'n' then Char.ofNat 10
  else if c = 'f' then Char.ofNat 12
  else if c = 'r' then Char.ofNat 13
  else c

def digitValue (c : Char) : Nat := (hexDigit c.toNat.toUInt8).getD 0

/-- The first character of the inside of a string. -/
def unescape : List Char → Option (Char × List Char)
  | [] => none
  | c :: r =>
    if c = '\\' then
      match r with
      | d :: r' =>
        if d = 'u' then
          match r' with
          | _ :: _ :: high :: low :: rest =>
            some (Char.ofNat (16 * digitValue high + digitValue low), rest)
          | _ => none
        else some (unescapeShort d, r')
      | [] => none
    else some (c, r)

theorem digitValue_digitChar (n : Nat) (h : n < 16) : digitValue (Nat.digitChar n) = n := by
  obtain ⟨_, _, _, _, hdigit⟩ := digitChar_hex n h
  rw [digitValue, hdigit]
  rfl

theorem unescape_escape (c : Char) (r : List Char) : unescape (escape c ++ r) = some (c, r) := by
  have hback : ∀ n, c.toNat = n → Char.ofNat n = c := fun n hn => hn ▸ Char.ofNat_toNat c
  unfold escape
  split_ifs with hquote hslash h8 h9 h10 h12 h13 hcontrol
  · rw [hquote]
    rfl
  · rw [hslash]
    rfl
  · exact congrArg (fun d => some (d, r)) (hback 8 h8)
  · exact congrArg (fun d => some (d, r)) (hback 9 h9)
  · exact congrArg (fun d => some (d, r)) (hback 10 h10)
  · exact congrArg (fun d => some (d, r)) (hback 12 h12)
  · exact congrArg (fun d => some (d, r)) (hback 13 h13)
  · refine congrArg (fun d => some (d, r)) (hback _ ?_)
    have hbyte : c.toNat.toUInt8.toNat = c.toNat :=
      UInt8.toNat_ofNat_of_lt (Nat.lt_trans hcontrol (by decide))
    rw [hbyte, digitValue_digitChar _ (by omega), digitValue_digitChar _ (by omega)]
    omega
  · exact if_neg hslash

theorem escape_append_ne (c : Char) (r r' : List Char) : escape c ++ r ≠ '"' :: r' := by
  intro h
  have hread := unescape_escape c r
  rw [h] at hread
  cases hread
  cases h

def quote (s : List Char) : List Char := '"' :: (s.flatMap escape ++ ['"'])

theorem flatMap_escape_inj (s s' rest rest' : List Char)
    (h : s.flatMap escape ++ '"' :: rest = s'.flatMap escape ++ '"' :: rest') :
    s = s' ∧ rest = rest' := by
  induction s generalizing s' with
  | nil =>
    cases s' with
    | nil => exact ⟨rfl, List.tail_eq_of_cons_eq h⟩
    | cons c s' =>
      rw [List.flatMap_cons, List.append_assoc] at h
      exact absurd h.symm (escape_append_ne c _ _)
  | cons c s ih =>
    cases s' with
    | nil =>
      rw [List.flatMap_cons, List.append_assoc] at h
      exact absurd h (escape_append_ne c _ _)
    | cons c' s' =>
      rw [List.flatMap_cons, List.flatMap_cons, List.append_assoc, List.append_assoc] at h
      have hread := congrArg unescape h
      rw [unescape_escape, unescape_escape] at hread
      obtain ⟨hc, hrest⟩ := Prod.mk.inj (Option.some.inj hread)
      obtain ⟨hs, hr⟩ := ih s' hrest
      exact ⟨congrArg₂ List.cons hc hs, hr⟩

theorem quote_inj (s s' rest rest' : List Char) (h : quote s ++ rest = quote s' ++ rest') :
    s = s' ∧ rest = rest' := by
  rw [quote, quote, List.cons_append, List.cons_append, List.append_assoc, List.append_assoc] at h
  exact flatMap_escape_inj s s' rest rest' (List.tail_eq_of_cons_eq h)

/-! ### Documents -/

def isNumberChar (c : Char) : Bool :=
  c.isDigit || c = '-' || c = '+' || c = '.' || c = 'e' || c = 'E'

def NumberText := {cs : List Char // cs ≠ [] ∧ ∀ c ∈ cs, isNumberChar c = true}

inductive Doc where
  | null
  | bool (b : Bool)
  | number (n : NumberText)
  | string (s : String)
  | array (ds : List Doc)
  | object (es : List (String × Doc))

namespace Doc

/-- Induction over the documents inside of documents. -/
theorem tree {P : Doc → Prop} (null : P null) (bool : ∀ b, P (bool b))
    (number : ∀ n, P (number n)) (string : ∀ s, P (string s))
    (array : ∀ ds, (∀ d ∈ ds, P d) → P (array ds))
    (object : ∀ es, (∀ e ∈ es, P e.2) → P (object es)) (d : Doc) : P d :=
  @Doc.rec P (fun ds => ∀ d ∈ ds, P d) (fun es => ∀ e ∈ es, P e.2) (fun e => P e.2)
    null bool number string array object (fun _ h => absurd h List.not_mem_nil)
    (fun _ _ hd hds => List.forall_mem_cons.mpr ⟨hd, hds⟩)
    (fun _ h => absurd h List.not_mem_nil)
    (fun _ _ he hes => List.forall_mem_cons.mpr ⟨he, hes⟩) (fun _ _ hd => hd) d

end Doc

def commaSeparated : List (List Char) → List Char
  | [] => []
  | t :: ts => t ++ ts.flatMap fun u => ',' :: u

mutual

def Doc.write : Doc → List Char
  | .null => ['n', 'u', 'l', 'l']
  | .bool true => ['t', 'r', 'u', 'e']
  | .bool false => ['f', 'a', 'l', 's', 'e']
  | .number n => n.1
  | .string s => quote s.toList
  | .array ds => '[' :: (commaSeparated (writeItems ds) ++ [']'])
  | .object es => '{' :: (commaSeparated (writeEntries es) ++ ['}'])

def writeItems : List Doc → List (List Char)
  | [] => []
  | d :: ds => d.write :: writeItems ds

def writeEntries : List (String × Doc) → List (List Char)
  | [] => []
  | (k, d) :: es => (quote k.toList ++ ':' :: d.write) :: writeEntries es

end

def writeEntry (e : String × Doc) : List Char := quote e.1.toList ++ ':' :: e.2.write

theorem writeItems_eq (ds : List Doc) : writeItems ds = ds.map Doc.write := by
  induction ds with
  | nil => rfl
  | cons d ds ih => rw [writeItems, ih, List.map_cons]

theorem writeEntries_eq (es : List (String × Doc)) : writeEntries es = es.map writeEntry := by
  induction es with
  | nil => rfl
  | cons e es ih =>
    obtain ⟨k, d⟩ := e
    rw [writeEntries, ih, List.map_cons, writeEntry]

/-! ### The text determines the document -/

/-- A number that came before would be over. -/
def Stops (rest : List Char) : Prop := ∀ c ∈ rest.head?, isNumberChar c = false

theorem stops_cons (c : Char) (rest : List Char) (h : isNumberChar c = false) :
    Stops (c :: rest) := by
  intro d hd
  cases hd
  exact h

/-- Nothing else has a text that starts in this way. -/
def Readable {α : Type} (text : α → List Char) (a : α) : Prop :=
  ∀ b rest rest', Stops rest → Stops rest' → text a ++ rest = text b ++ rest' →
    a = b ∧ rest = rest'

section Lists
variable {α : Type} {text : α → List Char} {close : Char}

theorem stops_flatMap_comma (hstop : isNumberChar close = false) (xs : List α)
    (rest : List Char) : Stops ((xs.flatMap fun x => ',' :: text x) ++ close :: rest) := by
  cases xs with
  | nil => exact stops_cons close rest hstop
  | cons x xs => exact stops_cons ',' _ (by decide)

theorem flatMap_comma_inj (hclose : close ≠ ',') (hstop : isNumberChar close = false)
    (xs ys : List α) (hread : ∀ x ∈ xs, Readable text x) (rest rest' : List Char)
    (h : (xs.flatMap fun x => ',' :: text x) ++ close :: rest =
      (ys.flatMap fun y => ',' :: text y) ++ close :: rest') : xs = ys ∧ rest = rest' := by
  induction xs generalizing ys with
  | nil =>
    cases ys with
    | nil => exact ⟨rfl, List.tail_eq_of_cons_eq h⟩
    | cons y ys => exact absurd (List.head_eq_of_cons_eq h) hclose
  | cons x xs ih =>
    cases ys with
    | nil => exact absurd (List.head_eq_of_cons_eq h).symm hclose
    | cons y ys =>
      rw [List.forall_mem_cons] at hread
      simp only [List.flatMap_cons, List.cons_append, List.append_assoc] at h
      obtain ⟨hx, htail⟩ := hread.1 y _ _ (stops_flatMap_comma hstop xs rest)
        (stops_flatMap_comma hstop ys rest') (List.tail_eq_of_cons_eq h)
      obtain ⟨hxs, hrest⟩ := ih ys hread.2 htail
      exact ⟨congrArg₂ List.cons hx hxs, hrest⟩

theorem commaSeparated_inj (hclose : close ≠ ',') (hstop : isNumberChar close = false)
    (hstart : ∀ a r r', text a ++ r ≠ close :: r') (xs ys : List α)
    (hread : ∀ x ∈ xs, Readable text x) (rest rest' : List Char)
    (h : commaSeparated (xs.map text) ++ close :: rest =
      commaSeparated (ys.map text) ++ close :: rest') : xs = ys ∧ rest = rest' := by
  cases xs with
  | nil =>
    cases ys with
    | nil => exact ⟨rfl, List.tail_eq_of_cons_eq h⟩
    | cons y ys =>
      simp only [List.map_cons, commaSeparated, List.append_assoc] at h
      exact absurd h.symm (hstart y _ _)
  | cons x xs =>
    cases ys with
    | nil =>
      simp only [List.map_cons, commaSeparated, List.append_assoc] at h
      exact absurd h (hstart x _ _)
    | cons y ys =>
      rw [List.forall_mem_cons] at hread
      simp only [List.map_cons, commaSeparated, List.flatMap_map, List.append_assoc] at h
      obtain ⟨hx, htail⟩ := hread.1 y _ _ (stops_flatMap_comma hstop xs rest)
        (stops_flatMap_comma hstop ys rest') h
      obtain ⟨hxs, hrest⟩ := flatMap_comma_inj hclose hstop xs ys hread.2 rest rest' htail
      exact ⟨congrArg₂ List.cons hx hxs, hrest⟩

end Lists

/-- What the first character of a text says about the document. -/
inductive Shape where
  | null
  | bool (b : Bool)
  | number
  | string
  | array
  | object

def Doc.shape : Doc → Shape
  | .null => .null
  | .bool b => .bool b
  | .number _ => .number
  | .string _ => .string
  | .array _ => .array
  | .object _ => .object

def shapeOf (c : Char) : Option Shape :=
  if isNumberChar c then some .number
  else if c = 'n' then some .null
  else if c = 't' then some (.bool true)
  else if c = 'f' then some (.bool false)
  else if c = '"' then some .string
  else if c = '[' then some .array
  else if c = '{' then some .object
  else none

theorem shapeOf_write (d : Doc) (rest : List Char) :
    (d.write ++ rest).head?.bind shapeOf = some d.shape := by
  cases d with
  | number n =>
    obtain ⟨cs, hne, hcs⟩ := n
    obtain ⟨c, cs, rfl⟩ := List.exists_cons_of_ne_nil hne
    exact if_pos (hcs c List.mem_cons_self)
  | bool b => cases b <;> rfl
  | _ => rfl

theorem shape_eq (d d' : Doc) (rest rest' : List Char) (h : d.write ++ rest = d'.write ++ rest') :
    d.shape = d'.shape := by
  have hshape := shapeOf_write d rest
  rw [h, shapeOf_write d' rest'] at hshape
  exact (Option.some.inj hshape).symm

theorem write_append_ne (close : Char) (hclose : shapeOf close = none) (d : Doc)
    (r r' : List Char) : d.write ++ r ≠ close :: r' := by
  intro h
  have hshape := shapeOf_write d r
  rw [h] at hshape
  exact absurd (hclose.symm.trans hshape) (Option.some_ne_none _).symm

theorem readable_number (n : NumberText) : Readable Doc.write (.number n) := by
  intro d rest rest' hrest hrest' h
  have hshape := shape_eq _ _ _ _ h
  cases d with
  | number m =>
    obtain ⟨htake, hdrop⟩ := span_append n.2.2 hrest
    obtain ⟨htake', hdrop'⟩ := span_append m.2.2 hrest'
    have hwrite : n.1 ++ rest = m.1 ++ rest' := h
    rw [hwrite, htake'] at htake
    rw [hwrite, hdrop'] at hdrop
    exact ⟨congrArg Doc.number (Subtype.ext htake.symm), hdrop.symm⟩
  | _ => cases hshape

theorem writeEntry_append_ne (e : String × Doc) (r r' : List Char) :
    writeEntry e ++ r ≠ '}' :: r' := by
  intro h
  exact absurd (List.head_eq_of_cons_eq h) (by decide)

theorem readable_entry (e : String × Doc) (he : Readable Doc.write e.2) :
    Readable writeEntry e := by
  intro e' rest rest' hrest hrest' h
  rw [writeEntry, writeEntry, List.append_assoc, List.append_assoc] at h
  obtain ⟨hkey, htail⟩ := quote_inj _ _ _ _ h
  obtain ⟨hdoc, hr⟩ := he e'.2 rest rest' hrest hrest' (List.tail_eq_of_cons_eq htail)
  exact ⟨Prod.ext (String.toList_injective hkey) hdoc, hr⟩

theorem readable_doc (d : Doc) : Readable Doc.write d := by
  induction d using Doc.tree with
  | number n => exact readable_number n
  | null =>
    intro d' rest rest' _ _ h
    have hshape := shape_eq _ _ _ _ h
    cases d' with
    | null => exact ⟨rfl, List.append_cancel_left h⟩
    | _ => cases hshape
  | bool b =>
    intro d' rest rest' _ _ h
    have hshape := shape_eq _ _ _ _ h
    cases d' with
    | bool b' =>
      cases hshape
      exact ⟨rfl, List.append_cancel_left h⟩
    | _ => cases hshape
  | string s =>
    intro d' rest rest' _ _ h
    have hshape := shape_eq _ _ _ _ h
    cases d' with
    | string s' =>
      obtain ⟨hs, hrest⟩ := quote_inj _ _ rest rest' h
      exact ⟨congrArg Doc.string (String.toList_injective hs), hrest⟩
    | _ => cases hshape
  | array ds ih =>
    intro d' rest rest' _ _ h
    have hshape := shape_eq _ _ _ _ h
    cases d' with
    | array ds' =>
      simp only [Doc.write, writeItems_eq, List.cons_append, List.append_assoc,
        List.nil_append] at h
      obtain ⟨hds, hrest⟩ := commaSeparated_inj (by decide) (by decide)
        (write_append_ne ']' (by decide)) ds ds' ih rest rest' (List.tail_eq_of_cons_eq h)
      exact ⟨congrArg Doc.array hds, hrest⟩
    | _ => cases hshape
  | object es ih =>
    intro d' rest rest' _ _ h
    have hshape := shape_eq _ _ _ _ h
    cases d' with
    | object es' =>
      simp only [Doc.write, writeEntries_eq, List.cons_append, List.append_assoc,
        List.nil_append] at h
      obtain ⟨hes, hrest⟩ := commaSeparated_inj (by decide) (by decide) writeEntry_append_ne
        es es' (fun e he => readable_entry e (ih e he)) rest rest' (List.tail_eq_of_cons_eq h)
      exact ⟨congrArg Doc.object hes, hrest⟩
    | _ => cases hshape

theorem write_injective : Function.Injective Doc.write := by
  intro d d' h
  have hnil : Stops [] := fun _ hc => absurd hc (Option.not_mem_none _)
  exact (readable_doc d d' [] [] hnil hnil (congrArg (· ++ []) h)).1

end InfraLens.LibJsonText
