import InfraLens.Schema
import Mathlib.Data.List.Basic
import Mathlib.Data.Rat.Defs

/-! Arrow arrays and record batches, and the documented behaviour of the kernels the query
engine calls. A slot under a null holds some value, which `value(i)` still reads. The
floating-point numbers are a parameter. -/
namespace InfraLens.Arrow
open Schema

/-- The operations on `f64` the engine uses. Arrow compares with the total order, the
quantile sort with the partial one; `round` is rounding followed by the cast to `usize`. -/
class FloatOps (F : Type) where
  ofInt : Int → F
  infinity : F
  negInfinity : F
  add : F → F → F
  sub : F → F → F
  mul : F → F → F
  div : F → F → F
  neg : F → F
  totalCmp : F → F → Ordering
  partialCmp : F → F → Option Ordering
  round : F → Nat

/-- Exact numbers in place of `f64`, with its infinities and one NaN. -/
inductive Exact where
  | num (q : Rat)
  | posInf
  | negInf
  | nan
  deriving DecidableEq

namespace Exact

def sign : Exact → Int
  | num q => if 0 < q then 1 else if q < 0 then -1 else 0
  | posInf => 1
  | negInf => -1
  | nan => 0

/-- The infinity of a sign; what has none is NaN. -/
def ofSign (s : Int) : Exact := if 0 < s then posInf else if s < 0 then negInf else nan

def neg : Exact → Exact
  | num q => num (-q)
  | posInf => negInf
  | negInf => posInf
  | nan => nan

def add : Exact → Exact → Exact
  | num a, num b => num (a + b)
  | nan, _ => nan
  | _, nan => nan
  | posInf, negInf => nan
  | negInf, posInf => nan
  | num _, b => b
  | a, _ => a

def mul : Exact → Exact → Exact
  | num a, num b => num (a * b)
  | a, b => ofSign (a.sign * b.sign)

def div : Exact → Exact → Exact
  | num a, num b => if b = 0 then ofSign (num a).sign else num (a / b)
  | num _, posInf => num 0
  | num _, negInf => num 0
  | posInf, num b => if b = 0 then posInf else ofSign (num b).sign
  | negInf, num b => if b = 0 then negInf else ofSign (-(num b).sign)
  | _, _ => nan

def rank : Exact → Nat
  | negInf => 0
  | num _ => 1
  | posInf => 2
  | nan => 3

def totalCmp : Exact → Exact → Ordering
  | num a, num b => compareOfLessAndEq a b
  | a, b => compareOfLessAndEq a.rank b.rank

def partialCmp (a b : Exact) : Option Ordering :=
  if a = nan ∨ b = nan then none else some (totalCmp a b)

def round : Exact → Nat
  | num q => min (q + 1 / 2).floor.toNat 0xFFFFFFFFFFFFFFFF
  | posInf => 0xFFFFFFFFFFFFFFFF
  | _ => 0

end Exact

instance : FloatOps Exact where
  ofInt n := .num n
  infinity := .posInf
  negInfinity := .negInf
  add := Exact.add
  sub a b := a.add b.neg
  mul := Exact.mul
  div := Exact.div
  neg := Exact.neg
  totalCmp := Exact.totalCmp
  partialCmp := Exact.partialCmp
  round := Exact.round

inductive ArrowError where
  | lengths
  | overflow
  | divideByZero
  | invalidBatch
  deriving DecidableEq

inductive QueryError where
  | bind (msg : String)
  | execution (msg : String)
  | arrow (e : ArrowError)
  deriving DecidableEq

/-- How a computation ends without a result: an error that is returned, or a panic. -/
inductive Stop where
  | error (e : QueryError)
  | panic
  deriving DecidableEq

abbrev Res := Except Stop

def execution {α : Type} (msg : String) : Res α := .error (.error (.execution msg))

def arrowError {α : Type} (e : ArrowError) : Res α := .error (.error (.arrow e))

inductive Slot (α : Type) where
  | valid (a : α)
  | null (raw : α)
  deriving DecidableEq

namespace Slot
variable {α β γ : Type}

def value : Slot α → α
  | valid a => a
  | null raw => raw

def isNull : Slot α → Bool
  | valid _ => false
  | null _ => true

def get? : Slot α → Option α
  | valid a => some a
  | null _ => none

def isTrue : Slot Bool → Bool
  | valid b => b
  | null _ => false

def map (f : α → β) : Slot α → Slot β
  | valid a => valid (f a)
  | null raw => null (f raw)

/-- Null where either operand is; the buffer is computed throughout. -/
def map2 (f : α → β → γ) : Slot α → Slot β → Slot γ
  | valid a, valid b => valid (f a b)
  | a, b => null (f a.value b.value)

/-- Null where either operand is; only valid slots are computed. -/
def tryMap2 (zero : γ) (f : α → β → Except ArrowError γ) : Slot α → Slot β → Res (Slot γ)
  | valid a, valid b =>
    match f a b with
    | .ok c => .ok (valid c)
    | .error e => arrowError e
  | _, _ => .ok (null zero)

end Slot

abbrev Value (F : Type) : DataType → Type
  | .uint64 => UInt64
  | .int64 => Int64
  | .int32 => Int32
  | .int8 => Int8
  | .float64 => F
  | .utf8 => String
  | .binary => List UInt8
  | .boolean => Bool

structure ArrayRef (F : Type) where
  dataType : DataType
  slots : List (Slot (Value F dataType))

section Arrays
variable {F : Type}

def ArrayRef.len (a : ArrayRef F) : Nat := a.slots.length

def ArrayRef.NoNulls (a : ArrayRef F) : Prop := ∀ s ∈ a.slots, s.isNull = false

instance (a : ArrayRef F) : Decidable a.NoNulls :=
  inferInstanceAs (Decidable (∀ s ∈ a.slots, s.isNull = false))

def ArrayRef.slice (a : ArrayRef F) (offset length : Nat) : ArrayRef F :=
  ⟨a.dataType, (a.slots.drop offset).take length⟩

def ArrayRef.boolean? : ArrayRef F → Option (List (Slot Bool))
  | ⟨.boolean, slots⟩ => some slots
  | _ => none

def ArrayRef.uint64? : ArrayRef F → Option (List (Slot UInt64))
  | ⟨.uint64, slots⟩ => some slots
  | _ => none

def ArrayRef.float64? : ArrayRef F → Option (List (Slot F))
  | ⟨.float64, slots⟩ => some slots
  | _ => none

def ArrayRef.utf8? : ArrayRef F → Option (List (Slot String))
  | ⟨.utf8, slots⟩ => some slots
  | _ => none

def booleans (slots : List (Slot Bool)) : ArrayRef F := ⟨.boolean, slots⟩

/-- The slots a mask selects: those where it is valid and true. A mask may be shorter than
what it filters. -/
def keep {α : Type} : List (Slot Bool) → List α → List α
  | m :: mask, a :: as => if m.isTrue then a :: keep mask as else keep mask as
  | _, _ => []

def ArrayRef.filter (a : ArrayRef F) (mask : List (Slot Bool)) : ArrayRef F :=
  ⟨a.dataType, keep mask a.slots⟩

/-! ### Kernels -/

def binary {α β γ : Type} (f : α → β → γ) (xs : List (Slot α)) (ys : List (Slot β)) :
    Res (List (Slot γ)) :=
  if xs.length = ys.length then .ok (List.zipWith (Slot.map2 f) xs ys) else arrowError .lengths

/-- The slots of a fallible kernel, stopping at the first slot that fails. -/
def tryZip {α β γ : Type} (zero : γ) (f : α → β → Except ArrowError γ) :
    List (Slot α) → List (Slot β) → Res (List (Slot γ))
  | x :: xs, y :: ys => do
    let z ← Slot.tryMap2 zero f x y
    let zs ← tryZip zero f xs ys
    pure (z :: zs)
  | _, _ => .ok []

def tryBinary {α β γ : Type} (zero : γ) (f : α → β → Except ArrowError γ) (xs : List (Slot α))
    (ys : List (Slot β)) : Res (List (Slot γ)) :=
  if xs.length = ys.length then tryZip zero f xs ys else arrowError .lengths

/-- `compute::and` and `compute::or`: null when either side is null. -/
def computeAnd (xs ys : List (Slot Bool)) : Res (List (Slot Bool)) := binary (· && ·) xs ys

def computeOr (xs ys : List (Slot Bool)) : Res (List (Slot Bool)) := binary (· || ·) xs ys

def computeNot (xs : List (Slot Bool)) : List (Slot Bool) := xs.map (Slot.map (!·))

def checked (n : Int) : Except ArrowError Int64 :=
  if -2 ^ 63 ≤ n ∧ n < 2 ^ 63 then .ok (Int64.ofInt n) else .error .overflow

def addChecked (a b : Int64) : Except ArrowError Int64 := checked (a.toInt + b.toInt)

def subChecked (a b : Int64) : Except ArrowError Int64 := checked (a.toInt - b.toInt)

def mulChecked (a b : Int64) : Except ArrowError Int64 := checked (a.toInt * b.toInt)

def divChecked (a b : Int64) : Except ArrowError Int64 :=
  if b = 0 then .error .divideByZero else checked (a.toInt.tdiv b.toInt)

end Arrays

/-! ### Record batches -/

/-- Columns of the schema's types, all of one length, with nulls only where the schema
allows them. -/
structure RecordBatch (F : Type) where
  schema : List Field
  numRows : Nat
  columns : List (ArrayRef F)
  typed : columns.map ArrayRef.dataType = schema.map Field.dataType
  sized : ∀ c ∈ columns, c.len = numRows
  nonNull : ∀ p ∈ schema.zip columns, p.1.nullable = false → p.2.NoNulls

/-- The value of one column in one row. -/
structure Cell (F : Type) where
  dataType : DataType
  slot : Slot (Value F dataType)

section Batches
variable {F : Type}

@[ext] theorem RecordBatch.ext' (a b : RecordBatch F) (hs : a.schema = b.schema)
    (hn : a.numRows = b.numRows) (hc : a.columns = b.columns) : a = b := by
  cases a
  cases b
  simp_all

/-- Change every column, keeping its type and adding no null, to a new number of rows. -/
def RecordBatch.mapColumns (b : RecordBatch F) (n : Nat) (f : ArrayRef F → ArrayRef F)
    (hf : ∀ c, (f c).dataType = c.dataType) (hn : ∀ c ∈ b.columns, (f c).len = n)
    (hnull : ∀ c, c.NoNulls → (f c).NoNulls) : RecordBatch F where
  schema := b.schema
  numRows := n
  columns := b.columns.map f
  typed := by
    rw [← b.typed, List.map_map]
    exact List.map_congr_left fun c _ => hf c
  sized := by
    intro c hc
    obtain ⟨a, ha, rfl⟩ := List.mem_map.mp hc
    exact hn a ha
  nonNull := by
    intro p hp hfield
    rw [List.zip_map_right] at hp
    obtain ⟨q, hq, rfl⟩ := List.mem_map.mp hp
    exact hnull q.2 (b.nonNull q hq hfield)

def RecordBatch.slice (b : RecordBatch F) (offset length : Nat) : RecordBatch F :=
  b.mapColumns (min length (b.numRows - offset)) (·.slice offset length) (fun _ => rfl)
    (fun c hc => by
      have hlen := b.sized c hc
      rw [ArrayRef.len] at hlen
      simp [ArrayRef.slice, ArrayRef.len, hlen])
    (fun c hc s hs => hc s (List.mem_of_mem_drop (List.mem_of_mem_take hs)))

theorem length_keep {α : Type} (mask : List (Slot Bool)) (as : List α)
    (h : mask.length ≤ as.length) : (keep mask as).length = mask.countP Slot.isTrue := by
  induction mask generalizing as with
  | nil => cases as <;> rfl
  | cons m mask ih =>
    cases as with
    | nil => simp at h
    | cons a as =>
      have hrest := ih as (by simpa using h)
      by_cases hm : m.isTrue
      · simp [keep, hrest, hm]
      · simp [keep, hrest, hm]

theorem mem_of_mem_keep {α : Type} (mask : List (Slot Bool)) (as : List α) (a : α)
    (h : a ∈ keep mask as) : a ∈ as := by
  induction mask generalizing as with
  | nil => cases as <;> cases h
  | cons m mask ih =>
    cases as with
    | nil => cases h
    | cons x as =>
      unfold keep at h
      split at h
      · cases List.mem_cons.mp h with
        | inl he => exact he ▸ List.mem_cons_self
        | inr hm => exact List.mem_cons_of_mem x (ih as hm)
      · exact List.mem_cons_of_mem x (ih as h)

/-- `filter_record_batch`: an error for a mask longer than a column. -/
def filterRecordBatch (b : RecordBatch F) (mask : List (Slot Bool)) : Res (RecordBatch F) :=
  if h : ∀ c ∈ b.columns, mask.length ≤ c.len then
    .ok (b.mapColumns (mask.countP Slot.isTrue) (·.filter mask) (fun _ => rfl)
      (fun c hc => length_keep mask c.slots (h c hc))
      (fun c hc s hs => hc s (mem_of_mem_keep mask c.slots s hs)))
  else arrowError .lengths

/-- `Schema::index_of`: the first field of that name. -/
def indexOf (fields : List Field) (name : String) : Option Nat :=
  fields.findIdx? fun f => f.name == name

def RecordBatch.column? (b : RecordBatch F) (name : String) : Option (ArrayRef F) :=
  (indexOf b.schema name).bind fun i => b.columns[i]?

def RecordBatch.empty (schema : List Field) : RecordBatch F where
  schema := schema
  numRows := 0
  columns := schema.map fun f => ⟨f.dataType, []⟩
  typed := by simp [Function.comp_def]
  sized := by
    intro c hc
    obtain ⟨f, _, rfl⟩ := List.mem_map.mp hc
    rfl
  nonNull := by
    intro p hp _ s hs
    rw [List.zip_map_right] at hp
    obtain ⟨q, _, rfl⟩ := List.mem_map.mp hp
    cases hs

/-- `RecordBatch::try_new`: at least one column, and every column as the schema and the first
column want it. -/
def tryNew (schema : List Field) (columns : List (ArrayRef F)) : Res (RecordBatch F) :=
  match columns with
  | [] => arrowError .invalidBatch
  | c :: cs =>
    if h : (c :: cs).map ArrayRef.dataType = schema.map Field.dataType ∧
        (∀ a ∈ c :: cs, a.len = c.len) ∧
        ∀ p ∈ schema.zip (c :: cs), p.1.nullable = false → p.2.NoNulls then
      .ok ⟨schema, c.len, c :: cs, h.1, h.2.1, h.2.2⟩
    else arrowError .invalidBatch

theorem typed_of_tryNew (schema : List Field) (columns : List (ArrayRef F)) (b : RecordBatch F)
    (h : tryNew schema columns = .ok b) :
    columns.map ArrayRef.dataType = schema.map Field.dataType := by
  unfold tryNew at h
  split at h
  · cases h
  · split at h
    next hfits => exact hfits.1
    · cases h

/-! ### Rows -/

def ArrayRef.cells (a : ArrayRef F) : List (Cell F) := a.slots.map fun s => ⟨a.dataType, s⟩

@[simp] theorem ArrayRef.length_cells (a : ArrayRef F) : a.cells.length = a.len := by
  simp [ArrayRef.cells, ArrayRef.len]

/-- The rows of `n`-row columns, a cell for each column. -/
def rowsOf (n : Nat) : List (ArrayRef F) → List (List (Cell F))
  | [] => List.replicate n []
  | c :: cs => (c.cells.zip (rowsOf n cs)).map fun p => p.1 :: p.2

def RecordBatch.rows (b : RecordBatch F) : List (List (Cell F)) := rowsOf b.numRows b.columns

def cell? (schema : List Field) (row : List (Cell F)) (name : String) : Option (Cell F) :=
  (indexOf schema name).bind fun i => row[i]?

theorem length_rowsOf (n : Nat) (cs : List (ArrayRef F)) (h : ∀ c ∈ cs, c.len = n) :
    (rowsOf n cs).length = n := by
  induction cs with
  | nil => simp [rowsOf]
  | cons c cs ih =>
    have hc := h c List.mem_cons_self
    have hcs := ih fun c' hc' => h c' (List.mem_cons_of_mem c hc')
    simp [rowsOf, hc, hcs]

@[simp] theorem length_rows (b : RecordBatch F) : b.rows.length = b.numRows :=
  length_rowsOf b.numRows b.columns b.sized

theorem map_rowsOf (n : Nat) (cs : List (ArrayRef F)) (h : ∀ c ∈ cs, c.len = n) (i : Nat)
    (c : ArrayRef F) (hc : cs[i]? = some c) :
    (rowsOf n cs).map (fun row => row[i]?) = c.cells.map some := by
  induction cs generalizing i with
  | nil => simp at hc
  | cons c' cs ih =>
    have hlen := length_rowsOf n cs fun a ha => h a (List.mem_cons_of_mem c' ha)
    have hc' : c'.cells.length = n := by simpa using h c' List.mem_cons_self
    cases i with
    | zero =>
      have he : c' = c := by simpa using hc
      subst he
      have hfst : (c'.cells.zip (rowsOf n cs)).map Prod.fst = c'.cells :=
        List.map_fst_zip (by omega)
      rw [← hfst, rowsOf, List.map_map, List.map_map]
      rfl
    | succ i =>
      have hsnd : (c'.cells.zip (rowsOf n cs)).map Prod.snd = rowsOf n cs :=
        List.map_snd_zip (by omega)
      rw [rowsOf, List.map_map, ← ih (fun a ha => h a (List.mem_cons_of_mem c' ha)) i
        (by simpa using hc)]
      conv_rhs => rw [← hsnd, List.map_map]
      rfl

theorem keep_map {α β : Type} (f : α → β) (mask : List (Slot Bool)) (as : List α) :
    keep mask (as.map f) = (keep mask as).map f := by
  induction mask generalizing as with
  | nil => cases as <;> rfl
  | cons m mask ih =>
    cases as with
    | nil => rfl
    | cons a as =>
      by_cases hm : m.isTrue
      · simp [keep, ih, hm]
      · simp [keep, ih, hm]

theorem keep_zip {α β : Type} (mask : List (Slot Bool)) (as : List α) (bs : List β)
    (h : as.length = bs.length) :
    keep mask (as.zip bs) = (keep mask as).zip (keep mask bs) := by
  induction mask generalizing as bs with
  | nil => cases as <;> cases bs <;> rfl
  | cons m mask ih =>
    cases as with
    | nil =>
      have hb : bs = [] := List.eq_nil_of_length_eq_zero h.symm
      subst hb
      rfl
    | cons a as =>
      cases bs with
      | nil => cases h
      | cons b bs =>
        have hrest := ih as bs (Nat.succ.inj h)
        by_cases hm : m.isTrue
        · simp [keep, hrest, hm]
        · simp [keep, hrest, hm]

theorem rowsOf_filter (mask : List (Slot Bool)) (n : Nat) (cs : List (ArrayRef F))
    (h : ∀ c ∈ cs, c.len = n) (hm : mask.length ≤ n) :
    rowsOf (mask.countP Slot.isTrue) (cs.map (·.filter mask)) = keep mask (rowsOf n cs) := by
  induction cs with
  | nil =>
    have hunit : (List.replicate n ([] : List (Cell F))) = (List.range n).map fun _ => [] := by
      simp
    rw [List.map_nil, rowsOf, rowsOf, hunit, keep_map, List.map_const',
      length_keep mask _ (by simpa using hm)]
  | cons c cs ih =>
    have hc := h c List.mem_cons_self
    have hcs : ∀ a ∈ cs, a.len = n := fun a ha => h a (List.mem_cons_of_mem c ha)
    have hlen : c.cells.length = (rowsOf n cs).length := by
      rw [length_rowsOf n cs hcs, ArrayRef.length_cells, hc]
    have hcells : (c.filter mask).cells = keep mask c.cells := (keep_map _ mask c.slots).symm
    rw [List.map_cons, rowsOf, rowsOf, ih hcs, keep_map, keep_zip mask _ _ hlen, hcells]

theorem rows_filter (b b' : RecordBatch F) (mask : List (Slot Bool))
    (hm : mask.length ≤ b.numRows) (h : filterRecordBatch b mask = .ok b') :
    b'.rows = keep mask b.rows := by
  unfold filterRecordBatch at h
  split at h
  · cases h
    exact rowsOf_filter mask b.numRows b.columns b.sized hm
  · cases h

theorem rowsOf_slice (n k m : Nat) (cs : List (ArrayRef F)) :
    rowsOf (min m (n - k)) (cs.map (·.slice k m)) = ((rowsOf n cs).drop k).take m := by
  induction cs with
  | nil => simp [rowsOf]
  | cons c cs ih =>
    have hcells : (c.slice k m).cells = (c.cells.drop k).take m := by
      simp [ArrayRef.cells, ArrayRef.slice]
    have hzip : ((c.cells.drop k).take m).zip (((rowsOf n cs).drop k).take m) =
        ((c.cells.zip (rowsOf n cs)).drop k).take m := by
      rw [List.zip, List.drop_zipWith, List.take_zipWith]
    rw [List.map_cons, rowsOf, rowsOf, ih, hcells, hzip, List.map_take, List.map_drop]

theorem rows_slice (b : RecordBatch F) (k m : Nat) :
    (b.slice k m).rows = (b.rows.drop k).take m :=
  rowsOf_slice b.numRows k m b.columns

theorem rowsOf_typed (n : Nat) (cs : List (ArrayRef F)) (row : List (Cell F))
    (h : row ∈ rowsOf n cs) : row.map Cell.dataType = cs.map ArrayRef.dataType := by
  induction cs generalizing row with
  | nil => rw [List.eq_of_mem_replicate h, List.map_nil, List.map_nil]
  | cons c cs ih =>
    obtain ⟨p, hp, rfl⟩ := List.mem_map.mp h
    obtain ⟨hfst, hsnd⟩ := List.of_mem_zip hp
    obtain ⟨s, _, hs⟩ := List.mem_map.mp hfst
    rw [List.map_cons, List.map_cons, ih p.2 hsnd, ← hs]

theorem rowsOf_nonNull (n : Nat) (fields : List Field) (cs : List (ArrayRef F))
    (row : List (Cell F)) (h : row ∈ rowsOf n cs)
    (hn : ∀ p ∈ fields.zip cs, p.1.nullable = false → p.2.NoNulls) :
    ∀ p ∈ fields.zip row, p.1.nullable = false → p.2.slot.isNull = false := by
  induction cs generalizing fields row with
  | nil =>
    rw [List.eq_of_mem_replicate h, List.zip_nil_right]
    intro p hp
    cases hp
  | cons c cs ih =>
    obtain ⟨q, hq, rfl⟩ := List.mem_map.mp h
    obtain ⟨hfst, hsnd⟩ := List.of_mem_zip hq
    cases fields with
    | nil =>
      intro p hp
      cases hp
    | cons f fields =>
      intro p hp hfield
      cases List.mem_cons.mp hp with
      | inl he =>
        subst he
        obtain ⟨s, hs, hc⟩ := List.mem_map.mp hfst
        have hslot := hn (f, c) List.mem_cons_self hfield s hs
        change q.1.slot.isNull = false
        rw [← hc]
        exact hslot
      | inr hm =>
        exact ih fields q.2 hsnd (fun p hp => hn p (List.mem_cons_of_mem _ hp)) p hm hfield

/-- A row of the schema: one cell of each field's type, null only where that is allowed. -/
structure RowOf (schema : List Field) (row : List (Cell F)) : Prop where
  typed : row.map Cell.dataType = schema.map Field.dataType
  nonNull : ∀ p ∈ schema.zip row, p.1.nullable = false → p.2.slot.isNull = false

theorem rowOf_rows (b : RecordBatch F) (row : List (Cell F)) (h : row ∈ b.rows) :
    RowOf b.schema row where
  typed := (rowsOf_typed b.numRows b.columns row h).trans b.typed
  nonNull := rowsOf_nonNull b.numRows b.schema b.columns row h b.nonNull

def RecordBatch.ofRow (schema : List Field) (row : List (Cell F)) (h : RowOf schema row) :
    RecordBatch F where
  schema := schema
  numRows := 1
  columns := row.map fun c => ⟨c.dataType, [c.slot]⟩
  typed := by
    rw [List.map_map]
    exact h.typed
  sized := by
    intro c hc
    obtain ⟨a, _, rfl⟩ := List.mem_map.mp hc
    rfl
  nonNull := by
    intro p hp hfield s hs
    rw [List.zip_map_right] at hp
    obtain ⟨q, hq, rfl⟩ := List.mem_map.mp hp
    rw [List.mem_singleton.mp hs]
    exact h.nonNull q hq hfield

theorem rows_ofRow (schema : List Field) (row : List (Cell F)) (h : RowOf schema row) :
    (RecordBatch.ofRow schema row h).rows = [row] := by
  change rowsOf 1 (row.map fun c => ⟨c.dataType, [c.slot]⟩) = [row]
  clear h
  induction row with
  | nil => rfl
  | cons c row ih =>
    rw [List.map_cons, rowsOf, ih]
    rfl

theorem schema_filter (b b' : RecordBatch F) (mask : List (Slot Bool))
    (h : filterRecordBatch b mask = .ok b') : b'.schema = b.schema := by
  unfold filterRecordBatch at h
  split at h
  · cases h
    rfl
  · cases h

theorem columns_of_rowsOf (n : Nat) (cs ds : List (ArrayRef F))
    (htypes : cs.map ArrayRef.dataType = ds.map ArrayRef.dataType)
    (hcs : ∀ c ∈ cs, c.len = n) (hds : ∀ d ∈ ds, d.len = n) (h : rowsOf n cs = rowsOf n ds) :
    cs = ds := by
  induction cs generalizing ds with
  | nil => exact (List.map_eq_nil_iff.mp htypes.symm).symm
  | cons c cs ih =>
    cases ds with
    | nil => cases htypes
    | cons d ds =>
      obtain ⟨ht, hts⟩ := List.cons.inj htypes
      have hclen : c.cells.length = n := by simpa using hcs c List.mem_cons_self
      have hdlen : d.cells.length = n := by simpa using hds d List.mem_cons_self
      have hrows := length_rowsOf n cs fun a ha => hcs a (List.mem_cons_of_mem c ha)
      have hrows' := length_rowsOf n ds fun a ha => hds a (List.mem_cons_of_mem d ha)
      have hinj : Function.Injective fun p : Cell F × List (Cell F) => p.1 :: p.2 := by
        intro p q hpq
        obtain ⟨h1, h2⟩ := List.cons.inj hpq
        exact Prod.ext h1 h2
      have hzip := List.map_injective_iff.mpr hinj h
      have hfst : (c.cells.zip (rowsOf n cs)).map Prod.fst = c.cells :=
        List.map_fst_zip (by omega)
      have hsnd : (c.cells.zip (rowsOf n cs)).map Prod.snd = rowsOf n cs :=
        List.map_snd_zip (by omega)
      have hcells : c.cells = d.cells := by rw [← hfst, hzip, List.map_fst_zip (by omega)]
      have hrest : rowsOf n cs = rowsOf n ds := by rw [← hsnd, hzip, List.map_snd_zip (by omega)]
      have hcd : c = d := by
        obtain ⟨t, xs⟩ := c
        obtain ⟨u, ys⟩ := d
        change t = u at ht
        subst ht
        have hslot : Function.Injective fun x : Slot (Value F t) => (⟨t, x⟩ : Cell F) := by
          intro x y hxy
          cases hxy
          rfl
        have hslots : xs = ys := List.map_injective_iff.mpr hslot hcells
        rw [hslots]
      rw [hcd, ih ds hts (fun a ha => hcs a (List.mem_cons_of_mem c ha))
        (fun a ha => hds a (List.mem_cons_of_mem d ha)) hrest]

theorem eq_of_rows (a b : RecordBatch F) (hs : a.schema = b.schema) (hr : a.rows = b.rows) :
    a = b := by
  have hn : a.numRows = b.numRows := by rw [← length_rows a, hr, length_rows b]
  have htypes : a.columns.map ArrayRef.dataType = b.columns.map ArrayRef.dataType := by
    rw [a.typed, b.typed, hs]
  refine RecordBatch.ext' a b hs hn (columns_of_rowsOf a.numRows a.columns b.columns htypes
    a.sized ?_ ?_)
  · rw [hn]
    exact b.sized
  · change rowsOf a.numRows a.columns = rowsOf b.numRows b.columns at hr
    rw [hr, hn]

theorem map_cell? (b : RecordBatch F) (name : String) (c : ArrayRef F)
    (h : b.column? name = some c) :
    b.rows.map (fun row => cell? b.schema row name) = c.cells.map some := by
  obtain ⟨i, hi, hc⟩ := Option.bind_eq_some_iff.mp h
  simp only [cell?, hi, Option.bind_some]
  exact map_rowsOf b.numRows b.columns b.sized i c hc

end Batches

end InfraLens.Arrow
