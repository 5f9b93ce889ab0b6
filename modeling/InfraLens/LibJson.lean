import Mathlib.Algebra.Group.Nat.Defs
import Mathlib.Data.Int.Cast.Defs
import Mathlib.Data.List.Basic

/-! JSON values as serde_json has them, over any type of floating-point numbers, and objects made
of optional fields. -/
namespace InfraLens.LibJson
variable {F : Type}

/-- A number that is not negative, a negative number or a floating-point number. -/
inductive Number (F : Type) where
  | posInt (n : UInt64)
  | negInt (i : Int64)
  | float (x : F)

/-- The keys of an object are distinct in every value that was read from a text. -/
inductive Json (F : Type) where
  | null
  | bool (b : Bool)
  | number (n : Number F)
  | string (s : String)
  | array (vs : List (Json F))
  | object (fields : List (String × Json F))

def Json.get (v : Json F) (k : String) : Option (Json F) :=
  match v with
  | .object fields => fields.lookup k
  | _ => none

def Json.asStr : Json F → Option String
  | .string s => some s
  | _ => none

def Json.asBool : Json F → Option Bool
  | .bool b => some b
  | _ => none

def Json.asU64 : Json F → Option UInt64
  | .number (.posInt n) => some n
  | _ => none

def Json.asI64 : Json F → Option Int64
  | .number (.posInt n) => if n.toNat < 2 ^ 63 then some n.toInt64 else none
  | .number (.negInt i) => some i
  | _ => none

def Json.asF64 [IntCast F] : Json F → Option F
  | .number (.posInt n) => some (n.toNat : Int)
  | .number (.negInt i) => some i.toInt
  | .number (.float x) => some x
  | _ => none

def Json.asArray : Json F → Option (List (Json F))
  | .array vs => some vs
  | _ => none

def Json.ofInt64 (i : Int64) : Json F :=
  if 0 ≤ i.toInt then .number (.posInt i.toUInt64) else .number (.negInt i)

theorem Json.asI64_ofInt64 (i : Int64) : (Json.ofInt64 i : Json F).asI64 = some i := by
  rw [Json.ofInt64]
  split
  next h =>
    have hlt := i.toInt_lt
    have hnat : (i.toUInt64.toNat : Int) = i.toInt := by
      rw [Int64.toNat_toUInt64_of_le (by simpa [Int64.le_iff_toInt_le] using h)]
      exact Int.toNat_of_nonneg h
    rw [Json.asI64, if_pos (by omega)]
    simp
  next h => rfl

/-! ### Sizes -/

section Sizes
variable [SizeOf F]

theorem sizeOf_lookup (k : String) (fields : List (String × Json F)) (w : Json F)
    (h : fields.lookup k = some w) : sizeOf w < sizeOf fields := by
  induction fields with
  | nil => cases h
  | cons f fields ih =>
    obtain ⟨a, v⟩ := f
    rw [List.lookup_cons] at h
    split at h
    · cases h
      simp
      omega
    · have hlt := ih h
      simp
      omega

theorem Json.sizeOf_get (v : Json F) (k : String) (w : Json F) (h : v.get k = some w) :
    sizeOf w < sizeOf v := by
  cases v with
  | object fields =>
    have hlt := sizeOf_lookup k fields w h
    simp
    omega
  | null | bool b | number n | string s | array vs => cases h

theorem Json.sizeOf_asArray (v : Json F) (vs : List (Json F)) (h : v.asArray = some vs)
    (w : Json F) (hw : w ∈ vs) : sizeOf w < sizeOf v := by
  cases v with
  | array us =>
    cases h
    have hlt := List.sizeOf_lt_of_mem hw
    simp
    omega
  | null | bool b | number n | string s | object fields => cases h

end Sizes

/-! ### Objects of optional fields -/

def Json.ofFields (fields : List (String × Option (Json F))) : Json F :=
  .object (fields.filterMap fun f => f.2.map fun v => (f.1, v))

theorem lookup_filterMap_none (k : String) (fields : List (String × Option (Json F)))
    (h : k ∉ fields.map Prod.fst) :
    (fields.filterMap fun f => f.2.map fun v => (f.1, v)).lookup k = none := by
  rw [List.lookup_eq_none_iff]
  intro p hp
  obtain ⟨f, hf, hmap⟩ := List.mem_filterMap.mp hp
  obtain ⟨v, _, rfl⟩ := Option.map_eq_some_iff.mp hmap
  have hne : k ≠ f.1 := fun heq => h (heq ▸ List.mem_map_of_mem hf)
  simpa using hne

theorem Json.get_ofFields (k : String) (fields : List (String × Option (Json F)))
    (h : (fields.map Prod.fst).Nodup) :
    (Json.ofFields fields).get k = (fields.lookup k).join := by
  change (fields.filterMap _).lookup k = _
  induction fields with
  | nil => rfl
  | cons f fields ih =>
    obtain ⟨a, o⟩ := f
    obtain ⟨hnot, hnodup⟩ := List.nodup_cons.mp h
    by_cases hk : k = a
    · subst hk
      cases o with
      | none => simpa using lookup_filterMap_none k fields hnot
      | some v => simp
    · have hbeq : (k == a) = false := by simpa using hk
      cases o with
      | none => simpa [List.lookup_cons, hbeq] using ih hnodup
      | some v => simpa [List.lookup_cons, hbeq] using ih hnodup

end InfraLens.LibJson
