import Flusso.Document.Coercion

/-! # Numbers on the way to the sink

A value without a type reaches the sink with its structure. Its numbers keep
their value where they are 64-bit integers or where the decimal they become
goes back to the same number; a decimal field is sent as its nearest double.
-/

namespace Flusso

/-- The same number, as far as doubles tell. -/
def JsonNumber.Near (m n : JsonNumber) : Prop := m.value = n.value ∨ m.asF64 = n.asF64

namespace JsonValue

mutual

/-- The same structure, texts and booleans, and the same numbers as far as doubles tell. -/
def Same : JsonValue → JsonValue → Prop
  | null, null => True
  | bool a, bool b => a = b
  | number m, number n => m.Near n
  | string s, string t => s = t
  | array as, array bs => SameItems as bs
  | object as, object bs => SameFields as bs
  | _, _ => False

def SameItems : List JsonValue → List JsonValue → Prop
  | [], [] => True
  | a :: as, b :: bs => Same a b ∧ SameItems as bs
  | _, _ => False

def SameFields : List (String × JsonValue) → List (String × JsonValue) → Prop
  | [], [] => True
  | (k, a) :: as, (l, b) :: bs => k = l ∧ Same a b ∧ SameFields as bs
  | _, _ => False

end

mutual

/-- What holds of each number in a value. -/
def EveryNumber (P : JsonNumber → Prop) : JsonValue → Prop
  | number n => P n
  | array items => EveryNumberOfItems P items
  | object fields => EveryNumberOfFields P fields
  | _ => True

def EveryNumberOfItems (P : JsonNumber → Prop) : List JsonValue → Prop
  | [] => True
  | value :: items => EveryNumber P value ∧ EveryNumberOfItems P items

def EveryNumberOfFields (P : JsonNumber → Prop) : List (String × JsonValue) → Prop
  | [] => True
  | (_, value) :: fields => EveryNumber P value ∧ EveryNumberOfFields P fields

end

/-- The number that a number is or a text spells. -/
def spelled : JsonValue → Option ℚ
  | number n => some n.value
  | string s => numeral s
  | _ => none

/-- The value itself, or a number or text of the same number. -/
def Spells (out json : JsonValue) : Prop :=
  out = json ∨ ∃ q, json.spelled = some q ∧ out.spelled = some q

/-- A number or a text. -/
def isNumeric : JsonValue → Bool
  | number _ | string _ => true
  | _ => false

/-- A step into a value: a field of an object, an item of a list. -/
inductive Step where
  | field (key : String)
  | item (i : ℕ)
  deriving DecidableEq

def follow (value : JsonValue) : Step → Option JsonValue
  | .field key => match value with
    | object fields => Json.get fields key
    | _ => none
  | .item i => match value with
    | array items => items[i]?
    | _ => none

/-- What stands at a path into a value. -/
def at? (value : JsonValue) : List Step → Option JsonValue
  | [] => some value
  | step :: path => (value.follow step).bind fun inner => inner.at? path

end JsonValue

section Untyped

variable [Decimals]

theorem toJson_float_of_some {bits : UInt64} {d : Decimal} (h : Decimals.ofF64 bits = some d) :
    toJson (float bits) = decimalToJson d := by
  simp [float, h, toJson]

theorem toJson_float_of_none {bits : UInt64} (h : Decimals.ofF64 bits = none) :
    toJson (float bits) = .string (floatText BinaryFloat.double (2 ^ 63) bits.toNat) := by
  simp [float, h, toJson]

namespace JsonNumber

/-- A 64-bit integer, or a number whose decimal goes back to it. -/
def Survives (n : JsonNumber) : Prop :=
  n.asI64.isSome = true ∨
    ∃ d m, Decimals.ofF64 n.asF64 = some d ∧ Decimal.number d = some m ∧ m.Near n

theorem same_toJson_numberToGeneric_iff (n : JsonNumber) :
    (toJson (numberToGeneric n)).Same (.number n) ↔ n.Survives := by
  unfold numberToGeneric Survives
  cases hint : n.asI64 with
  | some i =>
    have hvalue : (fromI64 i).value = n.value := by rw [value_fromI64, value_of_asI64 hint]
    simpa [toJson, JsonValue.Same, Near] using Or.inl hvalue
  | none =>
    cases hdecimal : Decimals.ofF64 n.asF64 with
    | none => simp [toJson_float_of_none hdecimal, JsonValue.Same]
    | some d =>
      cases hnumber : d.number with
      | none => simp [toJson_float_of_some hdecimal, decimalToJson, hnumber, JsonValue.Same]
      | some m => simp [toJson_float_of_some hdecimal, decimalToJson, hnumber, JsonValue.Same]

end JsonNumber

namespace JsonValue

mutual

theorem same_toJson_jsonToGeneric_iff : ∀ v : JsonValue,
    (toJson (jsonToGeneric v)).Same v ↔ v.EveryNumber JsonNumber.Survives
  | .null => by simp [jsonToGeneric, toJson, Same, EveryNumber]
  | .bool _ => by simp [jsonToGeneric, toJson, Same, EveryNumber]
  | .string _ => by simp [jsonToGeneric, toJson, Same, EveryNumber]
  | .number n => by
    rw [jsonToGeneric, EveryNumber]
    exact n.same_toJson_numberToGeneric_iff
  | .array items => by
    rw [jsonToGeneric, toJson, Same, EveryNumber]
    exact sameItems_iff items
  | .object fields => by
    rw [jsonToGeneric, toJson, Same, EveryNumber]
    exact sameFields_iff fields

theorem sameItems_iff : ∀ items : List JsonValue,
    SameItems (itemsToJson (jsonToItems items)) items ↔
      EveryNumberOfItems JsonNumber.Survives items
  | [] => by simp [jsonToItems, itemsToJson, SameItems, EveryNumberOfItems]
  | value :: items => by
    rw [jsonToItems, itemsToJson, SameItems, EveryNumberOfItems,
      same_toJson_jsonToGeneric_iff value, sameItems_iff items]

theorem sameFields_iff : ∀ fields : List (String × JsonValue),
    SameFields (fieldsToJson (jsonToFields fields)) fields ↔
      EveryNumberOfFields JsonNumber.Survives fields
  | [] => by simp [jsonToFields, fieldsToJson, SameFields, EveryNumberOfFields]
  | (key, value) :: fields => by
    rw [jsonToFields, fieldsToJson, SameFields, EveryNumberOfFields,
      same_toJson_jsonToGeneric_iff value, sameFields_iff fields]
    simp

end

end JsonValue

end Untyped

section Decimals

variable [Decimals]

/-- The decimal that a number or a text goes through in a decimal field. -/
def decimalOf : JsonValue → Option Decimal
  | .number n =>
    (Numerals.decimal n.text).or (if n.asI64.isSome then none else Decimals.ofF64 n.asF64)
  | .string s => Numerals.decimal s
  | _ => none

/-- The number a decimal is written as: that of its nearest double, or its own. -/
def Decimal.written (d : Decimal) : ℚ :=
  match d.number with
  | some n => n.value
  | none => d.value

theorem spelled_decimalToJson (d : Decimal) : (decimalToJson d).spelled = some d.written := by
  unfold decimalToJson Decimal.written
  cases d.number with
  | some n => rfl
  | none => exact numeral_text d

theorem decimalToJson_ne {d : Decimal} {json : JsonValue} (h : json.spelled ≠ some d.written) :
    ¬ (decimalToJson d).Spells json := by
  rintro (heq | ⟨q, hjson, hout⟩)
  · exact h (heq ▸ spelled_decimalToJson d)
  · rw [spelled_decimalToJson] at hout
    exact h (hjson.trans hout.symm)

theorem spells_decimalToJson_iff {d : Decimal} {json : JsonValue} :
    (decimalToJson d).Spells json ↔ json.spelled = some d.written := by
  constructor
  · exact fun h => by_contra fun hne => decimalToJson_ne hne h
  · exact fun h => Or.inr ⟨_, h, spelled_decimalToJson d⟩

/-- The decimal a value goes through, if any, is written as the number it was; a number that goes
through none is an integer or the number its double spells. -/
def Exact (json : JsonValue) : Prop :=
  match decimalOf json with
  | some d => json.spelled = some d.written
  | none => ∀ n, json = .number n → n.asI64.isSome = true ∨ doubleValue n.asF64 = n.value

theorem spells_coerceDecimal_iff {json : JsonValue} (h : json.isNumeric = true) :
    (toJson (coerceDecimal json)).Spells json ↔ Exact json := by
  cases json with
  | number n =>
    cases hread : Numerals.decimal n.text with
    | some d => simp [coerceDecimal, Exact, decimalOf, hread, toJson, spells_decimalToJson_iff]
    | none =>
      cases hint : n.asI64 with
      | some i =>
        have hvalue : (JsonNumber.fromI64 i).value = n.value := by
          rw [JsonNumber.value_fromI64, JsonNumber.value_of_asI64 hint]
        have hspells : (toJson (coerceDecimal (.number n))).Spells (.number n) := by
          refine Or.inr ⟨n.value, rfl, ?_⟩
          simp [coerceDecimal, hread, jsonToGeneric, numberToGeneric, hint, toJson,
            JsonValue.spelled, hvalue]
        simpa [Exact, decimalOf, hread, hint] using hspells
      | none =>
        have hcoerced : coerceDecimal (.number n) = float n.asF64 := by
          simp [coerceDecimal, hread, jsonToGeneric, numberToGeneric, hint]
        rw [hcoerced]
        cases hdecimal : Decimals.ofF64 n.asF64 with
        | some d =>
          simp [Exact, decimalOf, hread, hint, hdecimal, toJson_float_of_some hdecimal,
            spells_decimalToJson_iff]
        | none =>
          have htext := numeral_floatText n.isFinite_asF64
          rw [toJson_float_of_none hdecimal]
          simp only [Exact, decimalOf, hread, hint, hdecimal, JsonValue.Spells, JsonValue.spelled,
            htext]
          simp [hint]
  | string s =>
    cases hread : Numerals.decimal s with
    | some d => simp [coerceDecimal, Exact, decimalOf, hread, toJson, spells_decimalToJson_iff]
    | none =>
      simp [coerceDecimal, Exact, decimalOf, hread, toJson, jsonToGeneric, JsonValue.Spells]
  | null => cases h
  | bool _ => cases h
  | array _ => cases h
  | object _ => cases h

end Decimals

section Documents

/-- The declared field of a name. -/
def declared (fields : List Field) (name : String) : Option Field :=
  fields.find? fun f => f.field.name = name

/-- The type of an aggregate's one value. -/
def Aggregate.resultType (source : Aggregate) : Option FlussoType :=
  match source.op with
  | .count => some .long
  | .avg _ => some .double
  | .sum _ | .min _ | .max _ => source.valueType
  | .ids _ => none

/-- A document holds a value of a declared type at a path. -/
inductive TypedAt : List Field → JsonValue → List JsonValue.Step → FlussoType → JsonValue → Prop
  | column {fields object field options source json}
      (hfield : declared fields field.name = some (.column field options source))
      (hget : Json.get object field.name = some json) :
      TypedAt fields (.object object) [.field field.name] source.ty json
  | result {fields object field options source ty json}
      (hfield : declared fields field.name = some (.aggregate field options source))
      (hget : Json.get object field.name = some json) (hty : source.resultType = some ty) :
      TypedAt fields (.object object) [.field field.name] ty json
  | element {fields object field options source ty items i json}
      (hfield : declared fields field.name = some (.aggregate field options source))
      (hget : Json.get object field.name = some (.array items)) (hop : source.op = .ids ty)
      (hitem : items[i]? = some json) :
      TypedAt fields (.object object) [.field field.name, .item i] ty json
  | group {fields object field options inner value path ty json}
      (hfield : declared fields field.name = some (.group field options inner))
      (hget : Json.get object field.name = some value) (hinner : TypedAt inner value path ty json) :
      TypedAt fields (.object object) (.field field.name :: path) ty json
  | joined {fields object field options source inner value path ty json}
      (hfield : declared fields field.name = some (.join field options source inner))
      (hget : Json.get object field.name = some value) (hinner : TypedAt inner value path ty json) :
      TypedAt fields (.object object) (.field field.name :: path) ty json
  | listed {fields object field options source inner items i value path ty json}
      (hfield : declared fields field.name = some (.join field options source inner))
      (hget : Json.get object field.name = some (.array items)) (hitem : items[i]? = some value)
      (hinner : TypedAt inner value path ty json) :
      TypedAt fields (.object object) (.field field.name :: .item i :: path) ty json

variable [Decimals] [Times] {fields : List Field} {object : List (String × JsonValue)}
  {name : String} {f : Field} {json : JsonValue}

theorem key_mem_of_coerceFields {entry : String × GenericValue}
    (h : entry ∈ coerceFields fields object) : (Json.get object entry.1).isSome = true := by
  induction fields generalizing object with
  | nil => simp [coerceFields] at h
  | cons g fields ih =>
    rw [coerceFields] at h
    split at h
    · next json hget =>
      rcases List.mem_cons.mp h with rfl | h
      · rw [hget]
        rfl
      · have hkey := ih h
        rw [Json.get_filter_ne] at hkey
        split at hkey
        · cases hkey
        · exact hkey
    · exact ih h

theorem nodup_coerceFields : ((coerceFields fields object).map Prod.fst).Nodup := by
  induction fields generalizing object with
  | nil => simp [coerceFields]
  | cons g fields ih =>
    rw [coerceFields]
    split
    · rw [List.map_cons, List.nodup_cons]
      refine ⟨?_, ih⟩
      intro hmem
      obtain ⟨entry, hentry, hkey⟩ := List.mem_map.mp hmem
      have hget := key_mem_of_coerceFields hentry
      rw [Json.get_filter_ne, if_pos hkey] at hget
      cases hget
    · exact ih

theorem mem_coerceFields (hfield : declared fields name = some f)
    (hget : Json.get object name = some json) :
    (name, coerceField f json) ∈ coerceFields fields object := by
  induction fields generalizing object with
  | nil => cases hfield
  | cons g fields ih =>
    rw [declared, List.find?_cons] at hfield
    rw [coerceFields]
    by_cases hname : g.field.name = name
    · obtain rfl : g = f := by simpa [hname] using hfield
      rw [hname, hget]
      exact List.mem_cons_self
    · have hrest : declared fields name = some f := by simpa [hname, declared] using hfield
      split
      · apply List.mem_cons_of_mem
        apply ih hrest
        rw [Json.get_filter_ne, if_neg fun h => hname h.symm, hget]
      · exact ih hrest hget

theorem follow_coerceObject (hfield : declared fields name = some f)
    (hget : Json.get object name = some json) :
    (toJson (coerceObject (coerceFields fields) (.object object))).follow (.field name) =
      some (toJson (coerceField f json)) := by
  simp only [coerceObject, toJson, JsonValue.follow]
  rw [fieldsToJson_eq_map, Json.get_map,
    Json.get_ofPairs_of_mem nodup_coerceFields (mem_coerceFields hfield hget), Option.map_some]

omit [Times] in
theorem follow_item {items : List JsonValue} {value : JsonValue} {i : ℕ}
    (coerce : JsonValue → GenericValue) (h : items[i]? = some value) :
    (toJson (.array (items.map coerce))).follow (.item i) = some (toJson (coerce value)) := by
  simp [toJson, JsonValue.follow, itemsToJson_eq_map, h]

/-- What a document holds at a typed path is coerced to the type. -/
theorem TypedAt.coerced {v : JsonValue} {path : List JsonValue.Step} {ty : FlussoType}
    (h : TypedAt fields v path ty json) :
    (toJson (coerceDocument v fields)).at? path = some (toJson (coerceScalar json ty)) := by
  induction h with
  | column hfield hget =>
    rw [coerceDocument, JsonValue.at?, follow_coerceObject hfield hget]
    rfl
  | result hfield hget hty =>
    rw [coerceDocument, JsonValue.at?, follow_coerceObject hfield hget, Option.bind_some,
      JsonValue.at?, coerceField, coerceAggregate]
    rename_i source ty json
    revert hty
    unfold Aggregate.resultType
    cases source.op with
    | count | avg =>
      intro hty
      simp [← Option.some.inj hty]
    | sum | min | max =>
      intro hty
      simp [hty]
    | ids => exact nofun
  | element hfield hget hop hitem =>
    rw [coerceDocument, JsonValue.at?, follow_coerceObject hfield hget, Option.bind_some,
      JsonValue.at?, coerceField, coerceAggregate]
    simp only [hop, coerceItems]
    rw [follow_item _ hitem]
    rfl
  | group hfield hget _ ih =>
    rw [coerceDocument, JsonValue.at?, follow_coerceObject hfield hget]
    exact ih
  | joined hfield hget hinner ih =>
    rw [coerceDocument, JsonValue.at?, follow_coerceObject hfield hget, Option.bind_some,
      coerceField]
    cases hinner <;> exact ih
  | listed hfield hget hitem _ ih =>
    rw [coerceDocument, JsonValue.at?, follow_coerceObject hfield hget, Option.bind_some,
      coerceField, coerceRelation, JsonValue.at?, follow_item _ hitem]
    exact ih

/-- An untyped value reaches the sink with its meaning just where each of its numbers survives;
the value of a decimal field is sent exactly just where its decimal is written as the number it
was. -/
theorem meaning_kept_iff :
    (∀ v : JsonValue, (toJson (jsonToGeneric v)).Same v ↔ v.EveryNumber JsonNumber.Survives) ∧
      ∀ {v : JsonValue} {path : List JsonValue.Step}, TypedAt fields v path .decimal json →
        json.isNumeric = true →
        ∃ out, (toJson (coerceDocument v fields)).at? path = some out ∧
          (out.Spells json ↔ Exact json) := by
  refine ⟨JsonValue.same_toJson_jsonToGeneric_iff, ?_⟩
  intro v path htyped hnumeric
  refine ⟨_, htyped.coerced, ?_⟩
  have hscalar : coerceScalar json .decimal = coerceDecimal json := by
    cases json with
    | null => cases hnumeric
    | _ => rfl
  rw [hscalar]
  exact spells_coerceDecimal_iff hnumeric

end Documents

abbrev noTimes : Times where
  date _ := none
  time _ := none
  dateTime _ := none
  instant _ := none

/-- A price of twelve and a half, one level down. -/
theorem meaning_kept_iff_of_price :
    let price : JsonValue := .number (.float 0x4029000000000000 rfl)
    let source : Column := ⟨⟨"price"⟩, .decimal, false, [], none, []⟩
    ∃ out, (@toJson exactDecimals (@coerceDocument exactDecimals noTimes
        (.object [("cost", .object [("price", price)])])
        [.group ⟨"cost"⟩ [] [.column ⟨"price"⟩ [] source]])).at? [.field "cost", .field "price"] =
          some out ∧ (out.Spells price ↔ @Exact exactDecimals price) := by
  intro price source
  have hprice := @TypedAt.column [.column ⟨"price"⟩ [] source] [("price", price)] ⟨"price"⟩ []
    source price rfl rfl
  exact (@meaning_kept_iff exactDecimals noTimes _ _).2
    (@TypedAt.group _ [("cost", _)] ⟨"cost"⟩ _ _ _ _ _ _ rfl rfl hprice) rfl

/-- A large double becomes a string; a decimal of many digits loses its last one. -/
theorem not_meaning_kept :
    (¬ ∀ [Decimals] (v : JsonValue), (toJson (jsonToGeneric v)).Same v) ∧
      ¬ ∀ [Decimals] (json : JsonValue), json.isNumeric = true →
        (toJson (coerceDecimal json)).Spells json := by
  constructor
  · intro h
    have hsame := (@JsonValue.same_toJson_jsonToGeneric_iff exactDecimals
      (.number (.float 0x46293E5939A08CEA rfl))).mp (@h exactDecimals _)
    obtain hint | ⟨d, m, hdecimal, -⟩ := hsame
    · cases hint
    · have hnone : @Decimals.ofF64 exactDecimals 0x46293E5939A08CEA = none := by decide +kernel
      exact absurd (hnone.symm.trans hdecimal) (by simp)
  · intro h
    have hexact := (@spells_coerceDecimal_iff exactDecimals
      (.number (.posInt 9007199254740993)) rfl).mp (@h exactDecimals _ rfl)
    have hdecimal : @decimalOf exactDecimals (.number (.posInt 9007199254740993)) =
        some ⟨false, 9007199254740993, 0, by decide, by decide⟩ := by decide +kernel
    unfold Exact at hexact
    rw [hdecimal] at hexact
    exact absurd hexact (by decide +kernel)

end Flusso
