import InfraLens.OtlpEncoding

/-! Which attribute values and attribute lists the JSON decoder and the protobuf normalizer turn
into the same values. -/
namespace InfraLens.Otlp
open LibBincode LibMap LibText LibJson Model

/-! ### Values -/

mutual

/-- No bytes, no key-value list, no infinity or NaN and, unless defaults are written, no empty
array anywhere in the value. -/
def isPlain (emits : Bool) : ProtoAnyValue → Bool
  | .unset => true
  | .stringValue _ => true
  | .boolValue _ => true
  | .intValue _ => true
  | .doubleValue x => isFinite x
  | .arrayValue values => (emits || !values.isEmpty) && allPlain emits values
  | .kvlistValue _ => false
  | .bytesValue _ => false

def allPlain (emits : Bool) : List ProtoAnyValue → Bool
  | [] => true
  | v :: vs => isPlain emits v && allPlain emits vs

end

theorem decodeAnyValue_other (v : Value) (hstring : v.get "stringValue" = none)
    (hbool : v.get "boolValue" = none) (hint : v.get "intValue" = none)
    (hdouble : (v.get "doubleValue").bind Json.asF64 = none) (harray : arrayValues v = none) :
    decodeAnyValue v = .string Str.empty := by
  rw [decodeAnyValue, hstring, hbool, hint, hdouble]
  dsimp only [Option.bind_none]
  split
  next arr h => rw [harray] at h; cases h
  next => rfl

theorem decodeAnyValue_array (v : Value) (vs : List Value) (hstring : v.get "stringValue" = none)
    (hbool : v.get "boolValue" = none) (hint : v.get "intValue" = none)
    (hdouble : v.get "doubleValue" = none) (harray : arrayValues v = some vs) :
    decodeAnyValue v = .array (vs.map decodeAnyValue) := by
  rw [decodeAnyValue, hstring, hbool, hint, hdouble]
  dsimp only [Option.bind_none]
  split
  next arr h =>
    rw [harray] at h
    cases h
    rw [List.attach_map_val]
  next h => rw [harray] at h; cases h

theorem decode_stringValue (s : String) :
    decodeAnyValue (.ofFields [("stringValue", some (.string s))]) = .string (Str.ofString s) := by
  rw [decodeAnyValue]
  rfl

theorem decode_boolValue (b : Bool) :
    decodeAnyValue (.ofFields [("boolValue", some (.bool b))]) = .bool b := by
  rw [decodeAnyValue]
  rfl

theorem decode_intValue (v : Value) :
    decodeAnyValue (.ofFields [("intValue", some v)]) = .int (decodeI64 v) := by
  rw [decodeAnyValue]
  rfl

theorem decode_doubleValue (x : F64) (h : isFinite x = true) :
    decodeAnyValue (.ofFields [("doubleValue", some (encodeDouble x))]) = .double x := by
  rw [encodeDouble, if_pos h, decodeAnyValue]
  rfl

theorem decode_unknown (k : String) (v : Value) (hk : k = "kvlistValue" ∨ k = "bytesValue") :
    decodeAnyValue (.ofFields [(k, some v)]) = .string Str.empty := by
  cases hk with
  | inl h => subst h; exact decodeAnyValue_other _ rfl rfl rfl rfl rfl
  | inr h => subst h; exact decodeAnyValue_other _ rfl rfl rfl rfl rfl

theorem asF64_encodeDouble (x : F64) (h : isFinite x = false) :
    (encodeDouble x).asF64 = none := by
  rw [encodeDouble, if_neg (by simp [h])]
  split
  · rfl
  · split <;> rfl

theorem encodeAll_eq_nil (emits : Bool) (vs : List ProtoAnyValue) :
    (encodeAll emits vs).isEmpty = vs.isEmpty := by
  cases vs with
  | nil => simp [encodeAll]
  | cons v vs => simp [encodeAll]

mutual

theorem decode_encode_iff (emits : Bool) (v : ProtoAnyValue) :
    decodeAnyValue (encodeAnyValue emits v) = convertAnyValue v ↔ isPlain emits v = true := by
  cases v with
  | unset =>
    rw [encodeAnyValue, convertAnyValue, isPlain]
    exact iff_of_true (decodeAnyValue_other _ rfl rfl rfl rfl rfl) rfl
  | stringValue s =>
    rw [encodeAnyValue, decode_stringValue, convertAnyValue, isPlain, Str.ofString_val]
    exact iff_of_true rfl rfl
  | boolValue b =>
    rw [encodeAnyValue, decode_boolValue, convertAnyValue, isPlain]
    exact iff_of_true rfl rfl
  | intValue i =>
    rw [encodeAnyValue, decode_intValue, decodeI64_encodeI64, convertAnyValue, isPlain]
    exact iff_of_true rfl rfl
  | doubleValue x =>
    rw [encodeAnyValue, convertAnyValue, isPlain]
    cases hx : isFinite x with
    | true => exact iff_of_true (decode_doubleValue x hx) rfl
    | false =>
      have hother := decodeAnyValue_other (.ofFields [("doubleValue", some (encodeDouble x))])
        rfl rfl rfl (asF64_encodeDouble x hx) rfl
      rw [hother]
      simp
  | kvlistValue values =>
    rw [encodeAnyValue, decode_unknown _ _ (Or.inl rfl), convertAnyValue, isPlain]
    simp
  | bytesValue b =>
    rw [encodeAnyValue, decode_unknown _ _ (Or.inr rfl), convertAnyValue, isPlain]
    simp
  | arrayValue values =>
    have ih := decode_encodeAll_iff emits values
    rw [encodeAnyValue, convertAnyValue, isPlain, repeatedField, encodeAll_eq_nil]
    cases hempty : values.isEmpty && !emits with
    | true =>
      -- an empty array is left out, and nothing is read in its place
      rw [if_pos rfl, decodeAnyValue_other _ rfl rfl rfl rfl rfl]
      cases emits <;> simp_all
    | false =>
      rw [if_neg (by decide), decodeAnyValue_array _ _ rfl rfl rfl rfl rfl,
        AnyValue.array.injEq, ih]
      cases emits <;> simp_all

theorem decode_encodeAll_iff (emits : Bool) (vs : List ProtoAnyValue) :
    (encodeAll emits vs).map decodeAnyValue = convertAll vs ↔ allPlain emits vs = true := by
  cases vs with
  | nil =>
    rw [encodeAll, convertAll, allPlain]
    exact iff_of_true rfl rfl
  | cons v vs =>
    have hv := decode_encode_iff emits v
    have hvs := decode_encodeAll_iff emits vs
    rw [encodeAll, convertAll, allPlain, List.map_cons, List.cons.injEq, hv, hvs,
      Bool.and_eq_true]

end

/-! ### Attribute lists -/

def jsonEntries (emits : Bool) (attrs : List KeyValue) : List (Str × AnyValue) :=
  (encodePairs emits attrs).filterMap decodeEntry

/-- The entry of one attribute; without a key there is none. -/
def jsonEntry (emits : Bool) (kv : KeyValue) : Option (Str × AnyValue) :=
  if kv.1 = Str.empty ∧ emits = false then none
  else some (kv.1,
    (kv.2.map fun v => decodeAnyValue (encodeAnyValue emits v)).getD (.string Str.empty))

theorem decodeEntry_encodeEntry (emits : Bool) (kv : KeyValue) :
    decodeEntry (encodeEntry emits kv.1 (kv.2.map (encodeAnyValue emits))) =
      jsonEntry emits kv := by
  have hget : ∀ k, (encodeEntry emits kv.1 (kv.2.map (encodeAnyValue emits))).get k = _ :=
    fun k => Json.get_ofFields k _ (by simp)
  rw [decodeEntry, jsonEntry, hget, hget]
  by_cases hk : kv.1 = Str.empty ∧ emits = false
  · simp [hk]
  · rw [if_neg hk, if_neg hk]
    cases hv : kv.2 <;> simp [Json.asStr, Str.ofString_val, List.lookup_cons]

theorem jsonEntries_eq (emits : Bool) (attrs : List KeyValue) :
    jsonEntries emits attrs = attrs.filterMap (jsonEntry emits) := by
  induction attrs with
  | nil => simp [jsonEntries, encodePairs]
  | cons kv attrs ih =>
    have hcons : encodePairs emits (kv :: attrs) =
        encodeEntry emits kv.1 (kv.2.map (encodeAnyValue emits)) :: encodePairs emits attrs := by
      obtain ⟨k, v⟩ := kv
      cases v <;> rw [encodePairs] <;> rfl
    rw [jsonEntries, hcons, List.filterMap_cons, List.filterMap_cons, decodeEntry_encodeEntry,
      ← ih, jsonEntries]

def presentValues (attrs : List KeyValue) : List (Str × ProtoAnyValue) :=
  attrs.filterMap fun kv => kv.2.map fun v => (kv.1, v)

/-- What the two sides make of the attributes under a key is the same: nothing if the key is left
out, the last value if there is one that survives, and otherwise an empty string on both sides. -/
def KeyPlain (emits : Bool) (attrs : List KeyValue) (k : Str) : Prop :=
  if k = Str.empty ∧ emits = false then ∀ v, (k, some v) ∉ attrs
  else match lastOf k attrs with
    | none => True
    | some (some v) => isPlain emits v = true
    | some none => ∃ v, lastOf k (presentValues attrs) = some v ∧
        (v = .unset ∨ v = .stringValue Str.empty)

theorem lastOf_jsonEntries (emits : Bool) (attrs : List KeyValue) (k : Str) :
    lastOf k (jsonEntries emits attrs) =
      if k = Str.empty ∧ emits = false then none
      else (lastOf k attrs).map fun v =>
        (v.map fun v => decodeAnyValue (encodeAnyValue emits v)).getD (.string Str.empty) := by
  rw [jsonEntries_eq]
  induction attrs with
  | nil => simp [lastOf]
  | cons kv attrs ih =>
    rw [List.filterMap_cons, lastOf]
    by_cases hkey : kv.1 = Str.empty ∧ emits = false
    · rw [jsonEntry, if_pos hkey]
      dsimp only
      rw [ih]
      by_cases hk : k = Str.empty ∧ emits = false
      · rw [if_pos hk, if_pos hk]
      · have hne : kv.1 ≠ k := fun h => hk (h ▸ hkey)
        simp [hne]
    · rw [jsonEntry, if_neg hkey]
      dsimp only
      rw [lastOf, ih]
      by_cases hk : k = Str.empty ∧ emits = false
      · have hne : kv.1 ≠ k := fun h => hkey (h ▸ hk)
        simp only [if_pos hk, if_neg hne]
        rfl
      · rw [if_neg hk, if_neg hk]
        by_cases hsame : kv.1 = k
        · cases hlast : lastOf k attrs <;> simp [hsame]
        · simp [hsame]

theorem lastOf_presentEntries (attrs : List KeyValue) (k : Str) :
    lastOf k (presentEntries attrs) = (lastOf k (presentValues attrs)).map convertAnyValue := by
  induction attrs with
  | nil => rfl
  | cons kv attrs ih =>
    obtain ⟨a, v⟩ := kv
    rw [presentEntries, presentValues, List.filterMap_cons, List.filterMap_cons]
    cases v with
    | none => exact ih
    | some v =>
      change lastOf k ((a, convertAnyValue v) :: presentEntries attrs) =
        (lastOf k ((a, v) :: presentValues attrs)).map convertAnyValue
      rw [lastOf, lastOf, ih]
      cases lastOf k (presentValues attrs) with
      | some w => rfl
      | none =>
        by_cases ha : a = k
        · simp [ha]
        · simp [ha]

theorem lastOf_presentValues (attrs : List KeyValue) (k : Str) :
    (lastOf k attrs = none → lastOf k (presentValues attrs) = none) ∧
      ∀ v, lastOf k attrs = some (some v) → lastOf k (presentValues attrs) = some v := by
  induction attrs with
  | nil => exact ⟨fun _ => rfl, fun v h => by cases h⟩
  | cons kv attrs ih =>
    obtain ⟨a, o⟩ := kv
    have hcons : lastOf k (presentValues ((a, o) :: attrs)) =
        (lastOf k (presentValues attrs)).or (if a = k then o else none) := by
      cases o with
      | none => simp [presentValues]
      | some v => simp [presentValues, lastOf]
    rw [hcons, lastOf]
    cases hlast : lastOf k attrs with
    | some w =>
      refine ⟨fun h => by simp at h, fun v h => ?_⟩
      have hw : w = some v := by simpa using h
      rw [ih.2 v (by rw [hlast, hw])]
      rfl
    | none =>
      rw [ih.1 hlast]
      by_cases ha : a = k
      · simp [ha]
      · simp [ha]

theorem lastOf_present_none_iff (attrs : List KeyValue) (k : Str) :
    lastOf k (presentValues attrs) = none ↔ ∀ v, (k, some v) ∉ attrs := by
  induction attrs with
  | nil => simp [presentValues, lastOf]
  | cons kv attrs ih =>
    obtain ⟨a, o⟩ := kv
    cases o with
    | none => simpa [presentValues] using ih
    | some v =>
      have hcons : presentValues ((a, some v) :: attrs) = (a, v) :: presentValues attrs := rfl
      rw [hcons, lastOf, Option.or_eq_none_iff, ih]
      constructor
      · intro h w hmem
        cases List.mem_cons.mp hmem with
        | inl heq =>
          have hak : a = k := by simp_all
          simp [hak] at h
        | inr hm => exact h.1 w hm
      · intro h
        have hne : a ≠ k := fun heq => h v (heq ▸ List.mem_cons_self)
        exact ⟨fun w hw => h w (List.mem_cons_of_mem _ hw), if_neg hne⟩

theorem convert_eq_empty_iff (v : ProtoAnyValue) :
    .string Str.empty = convertAnyValue v ↔ v = .unset ∨ v = .stringValue Str.empty := by
  cases v <;> simp [convertAnyValue, eq_comm]

theorem keyPlain_iff (emits : Bool) (attrs : List KeyValue) (k : Str) :
    lastOf k (jsonEntries emits attrs) = lastOf k (presentEntries attrs) ↔
      KeyPlain emits attrs k := by
  rw [lastOf_jsonEntries, lastOf_presentEntries, KeyPlain]
  obtain ⟨hnone, hsome⟩ := lastOf_presentValues attrs k
  by_cases hk : k = Str.empty ∧ emits = false
  · rw [if_pos hk, if_pos hk, ← lastOf_present_none_iff, eq_comm, Option.map_eq_none_iff]
  · rw [if_neg hk, if_neg hk]
    cases hlast : lastOf k attrs with
    | none => simp [hnone hlast]
    | some o =>
      cases o with
      | some v => simp [hsome v hlast, decode_encode_iff]
      | none =>
        cases hp : lastOf k (presentValues attrs) with
        | none => simp
        | some v => simp [convert_eq_empty_iff]

theorem decodeAttrs_eq_iff (emits : Bool) (attrs : Vec KeyValue) :
    decodeAttrs (encodeAttrs emits attrs) = convertAttrs attrs ↔
      ∀ k, KeyPlain emits attrs.1 k := by
  have hlength : (jsonEntries emits attrs.1).length < 2 ^ 64 := by
    rw [jsonEntries_eq]
    exact Nat.lt_of_le_of_lt (List.length_filterMap_le _ _) attrs.2
  have hdecode : decodeAttrs (encodeAttrs emits attrs) =
      attributeMap (jsonEntries emits attrs.1) hlength := dif_pos hlength
  rw [hdecode, convertAttrs, attributeMap, attributeMap, HashMap.mk.injEq,
    BTreeMap.entries_inj, BTreeMap.ofList_eq_iff]
  exact forall_congr' (keyPlain_iff emits attrs.1)

/-- The decoders agree on a list of attributes, written without defaults. -/
def AttrsAgree (attrs : Vec KeyValue) : Prop :=
  decodeAttrs (encodeAttrs false attrs) = convertAttrs attrs

theorem attrsAgree_singleton (k : Str) (v : ProtoAnyValue) (hk : k ≠ Str.empty)
    (hv : isPlain false v = true) : AttrsAgree ⟨[(k, some v)], by simp⟩ := by
  refine (decodeAttrs_eq_iff false _).mpr fun k' => ?_
  by_cases hk' : k' = Str.empty
  · rw [KeyPlain, if_pos ⟨hk', rfl⟩]
    simpa [hk'] using hk.symm
  · rw [KeyPlain, if_neg fun h => hk' h.1]
    by_cases hsame : k = k'
    · simpa [lastOf, hsame] using hv
    · simp [lastOf, hsame]

/-- A value survives the JSON encoding exactly when it is plain, and a list of attributes exactly
when it is plain under every key. -/
theorem attributes_agree_iff (emits : Bool) :
    (∀ v, decodeAnyValue (encodeAnyValue emits v) = convertAnyValue v ↔
        isPlain emits v = true) ∧
      ∀ attrs, decodeAttrs (encodeAttrs emits attrs) = convertAttrs attrs ↔
        ∀ k, KeyPlain emits attrs.1 k :=
  ⟨decode_encode_iff emits, decodeAttrs_eq_iff emits⟩

def payloadKey : Str := ⟨"payload", by decide⟩

def payloadBytes : Vec UInt8 := ⟨[1], by decide⟩

/-- Bytes become an empty string, and an attribute without a value is kept as one. -/
theorem attributes_disagree :
    decodeAnyValue (encodeAnyValue false (.bytesValue payloadBytes)) = .string Str.empty ∧
      convertAnyValue (.bytesValue payloadBytes) = .bytes payloadBytes ∧
      (decodeAttrs (encodeAttrs false ⟨[(payloadKey, none)], by decide⟩)).entries =
        [(payloadKey, .string Str.empty)] ∧
      (convertAttrs ⟨[(payloadKey, none)], by decide⟩).entries = [] := by
  refine ⟨?_, ?_, rfl, rfl⟩
  · rw [encodeAnyValue]
    exact decode_unknown _ _ (Or.inr rfl)
  · rw [convertAnyValue]

end InfraLens.Otlp
