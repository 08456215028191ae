import Flusso.Config.Yaml
import Flusso.Kernel.Display

/-! # Generic values in YAML

A value is written with a tag for its variant. The tags are not read back: a
value is taken for what its bare YAML says.
-/

namespace Flusso

/-- What crates make of numbers: the shortest text of a float, and the decimal a text spells. -/
class Numerals where
  floatText : UInt64 → String
  decimal : String → Option Decimal

/-- A single as a double. -/
def widen (bits : UInt32) : UInt64 :=
  let magnitude := bits.toNat % 2 ^ 31
  let wide :=
    if BinaryFloat.single.infinity ≤ magnitude then
      BinaryFloat.double.infinity + (magnitude - BinaryFloat.single.infinity) * 2 ^ 29
    else
      let (n, d) := BinaryFloat.ratio BinaryFloat.single magnitude
      BinaryFloat.ofRatio BinaryFloat.double n d
  UInt64.ofNat (wide + bits.toNat / 2 ^ 31 * 2 ^ 63)

section Reading

variable [Numerals]

def numberText : Yaml.Number → String
  | .posInt n => toString n.toNat
  | .negInt i => toString i.toInt
  | .float bits => Numerals.floatText bits

def yamlScalarToString : Yaml → String
  | .string s => s
  | .number n => numberText n
  | .bool b => toString b
  | .null => "null"
  | _ => ""

mutual

def yamlToGeneric : Yaml → GenericValue
  | .null => .null
  | .bool b => .bool b
  | .number n =>
    match n.asI64 with
    | some i => .bigInt i
    | none =>
      match Numerals.decimal (numberText n) with
      | some d => .decimal d
      | none => .string (numberText n)
  | .string s => .string s
  | .sequence items => .array (yamlToItems items)
  | .mapping entries => .map (Json.ofPairs (yamlToFields entries))
  | .tagged _ value => yamlToGeneric value

def yamlToItems : List Yaml → List GenericValue
  | [] => []
  | value :: items => yamlToGeneric value :: yamlToItems items

/-- Entries under anything but a string are dropped. -/
def yamlToFields : List (Yaml × Yaml) → List (String × GenericValue)
  | [] => []
  | (.string key, value) :: entries => (key, yamlToGeneric value) :: yamlToFields entries
  | (_, _) :: entries => yamlToFields entries

end

end Reading

namespace GenericValue

mutual

/-- A unit variant is its name, any other is tagged with it. -/
def toYaml : GenericValue → Yaml
  | null => .string "Null"
  | bool b => .tagged "Bool" (.bool b)
  | smallInt i => .tagged "SmallInt" (.number (.ofI64 i.toInt64))
  | int i => .tagged "Int" (.number (.ofI64 i.toInt64))
  | bigInt i => .tagged "BigInt" (.number (.ofI64 i))
  | float bits => .tagged "Float" (.number (.float (widen bits)))
  | double bits => .tagged "Double" (.number (.float bits))
  | decimal d => .tagged "Decimal" (.string d.text)
  | string s => .tagged "String" (.string s)
  | uuid u => .tagged "Uuid" (.string (uuidText u))
  | date d => .tagged "Date" (.string d.text)
  | time t => .tagged "Time" (.string t.text)
  | timestamp t => .tagged "Timestamp" (.string (t.date.text ++ "T" ++ t.time.text))
  | timestampTz t => .tagged "TimestampTz" (.string (t.date.text ++ "T" ++ t.time.text ++ "Z"))
  | bytes content =>
    .tagged "Bytes" (.sequence (content.map fun byte => .number (.posInt byte.toUInt64)))
  | array items => .tagged "Array" (.sequence (itemsToYaml items))
  | map fields => .tagged "Map" (.mapping (fieldsToYaml fields))

def itemsToYaml : List GenericValue → List Yaml
  | [] => []
  | value :: items => value.toYaml :: itemsToYaml items

def fieldsToYaml : List (String × GenericValue) → List (Yaml × Yaml)
  | [] => []
  | (key, value) :: fields => (.string key, value.toYaml) :: fieldsToYaml fields

end

mutual

/-- A value read from YAML: maps have their fields in order. -/
def FromYaml : GenericValue → Prop
  | null | bool _ | bigInt _ | decimal _ | string _ => True
  | array items => ItemsFromYaml items
  | map fields => Json.Sorted fields ∧ FieldsFromYaml fields
  | _ => False

def ItemsFromYaml : List GenericValue → Prop
  | [] => True
  | value :: items => value.FromYaml ∧ ItemsFromYaml items

def FieldsFromYaml : List (String × GenericValue) → Prop
  | [] => True
  | (_, value) :: fields => value.FromYaml ∧ FieldsFromYaml fields

end

mutual

/-- No null and no decimal, at any depth. -/
def Kept : GenericValue → Prop
  | null | decimal _ => False
  | array items => ItemsKept items
  | map fields => FieldsKept fields
  | _ => True

def ItemsKept : List GenericValue → Prop
  | [] => True
  | value :: items => value.Kept ∧ ItemsKept items

def FieldsKept : List (String × GenericValue) → Prop
  | [] => True
  | (_, value) :: fields => value.Kept ∧ FieldsKept fields

end

theorem fieldsFromYaml_iff {fields : List (String × GenericValue)} :
    FieldsFromYaml fields ↔ ∀ field ∈ fields, field.2.FromYaml := by
  induction fields with
  | nil => simp [FieldsFromYaml]
  | cons field fields ih => simp [FieldsFromYaml, ih]

end GenericValue

theorem sorted_map_values {α β : Type} {f : α → β} {fields : List (String × α)}
    (h : Json.Sorted fields) : Json.Sorted (fields.map fun field => (field.1, f field.2)) :=
  List.pairwise_map.mpr h

variable [Numerals]

open GenericValue

mutual

theorem fromYaml_yamlToGeneric : ∀ value : Yaml, (yamlToGeneric value).FromYaml
  | .null => trivial
  | .bool _ => trivial
  | .string _ => trivial
  | .number n => by
    unfold yamlToGeneric
    split
    · trivial
    · split <;> trivial
  | .sequence items => by
    simpa [yamlToGeneric, FromYaml] using itemsFromYaml_yamlToItems items
  | .mapping entries => by
    rw [yamlToGeneric, FromYaml, fieldsFromYaml_iff]
    refine ⟨Json.sorted_ofPairs, ?_⟩
    intro field hfield
    have hget := Json.get_of_mem Json.sorted_ofPairs hfield
    rw [Json.get_ofPairs] at hget
    have hmem := List.mem_reverse.mp (Json.mem_of_get hget)
    exact fieldsFromYaml_iff.mp (fieldsFromYaml_yamlToFields entries) _ hmem
  | .tagged _ value => by
    rw [yamlToGeneric]
    exact fromYaml_yamlToGeneric value

theorem itemsFromYaml_yamlToItems : ∀ items : List Yaml, ItemsFromYaml (yamlToItems items)
  | [] => trivial
  | value :: items => ⟨fromYaml_yamlToGeneric value, itemsFromYaml_yamlToItems items⟩

theorem fieldsFromYaml_yamlToFields :
    ∀ entries : List (Yaml × Yaml), FieldsFromYaml (yamlToFields entries)
  | [] => trivial
  | (.string _, value) :: entries =>
    ⟨fromYaml_yamlToGeneric value, fieldsFromYaml_yamlToFields entries⟩
  | (.null, _) :: entries | (.bool _, _) :: entries | (.number _, _) :: entries
  | (.sequence _, _) :: entries | (.mapping _, _) :: entries | (.tagged _ _, _) :: entries => by
    simpa [yamlToFields] using fieldsFromYaml_yamlToFields entries

end

/-- A value as it is after it was written and read again. -/
def rewritten (value : GenericValue) : GenericValue := yamlToGeneric value.toYaml

theorem yamlToItems_itemsToYaml (items : List GenericValue) :
    yamlToItems (itemsToYaml items) = items.map rewritten := by
  induction items with
  | nil => rfl
  | cons value items ih => rw [itemsToYaml, yamlToItems, ih, List.map_cons, rewritten]

theorem yamlToFields_fieldsToYaml (fields : List (String × GenericValue)) :
    yamlToFields (fieldsToYaml fields) = fields.map fun field => (field.1, rewritten field.2) := by
  induction fields with
  | nil => rfl
  | cons field fields ih => rw [fieldsToYaml, yamlToFields, ih, List.map_cons, rewritten]

theorem rewritten_map {fields : List (String × GenericValue)} (h : Json.Sorted fields) :
    rewritten (.map fields) = .map (fields.map fun field => (field.1, rewritten field.2)) := by
  rw [rewritten, toYaml, yamlToGeneric, yamlToGeneric, yamlToFields_fieldsToYaml,
    Json.ofPairs_of_sorted (sorted_map_values h)]

mutual

/-- A null comes back as a string, and so does a decimal; nothing else changes. -/
theorem rewritten_eq_self_iff : ∀ {value : GenericValue}, value.FromYaml →
    (rewritten value = value ↔ value.Kept)
  | .null, _ => by simp [rewritten, toYaml, yamlToGeneric, Kept]
  | .bool _, _ => by simp [rewritten, toYaml, yamlToGeneric, Kept]
  | .bigInt i, _ => by simp [rewritten, toYaml, yamlToGeneric, Kept, Yaml.Number.asI64_ofI64]
  | .decimal d, _ => by simp [rewritten, toYaml, yamlToGeneric, Kept]
  | .string _, _ => by simp [rewritten, toYaml, yamlToGeneric, Kept]
  | .array items, h => by
    rw [rewritten, toYaml, yamlToGeneric, yamlToGeneric, yamlToItems_itemsToYaml, array.injEq]
    exact rewrittenItems_eq_self_iff h
  | .map fields, h => by
    rw [rewritten_map h.1, map.injEq]
    exact rewrittenFields_eq_self_iff h.2
  | .smallInt _, h | .int _, h | .float _, h | .double _, h | .uuid _, h | .date _, h | .time _, h
  | .timestamp _, h | .timestampTz _, h | .bytes _, h => False.elim h

theorem rewrittenItems_eq_self_iff : ∀ {items : List GenericValue}, ItemsFromYaml items →
    (items.map rewritten = items ↔ ItemsKept items)
  | [], _ => by simp [ItemsKept]
  | value :: items, h => by
    rw [List.map_cons, List.cons.injEq, ItemsKept, rewritten_eq_self_iff h.1,
      rewrittenItems_eq_self_iff h.2]

theorem rewrittenFields_eq_self_iff : ∀ {fields : List (String × GenericValue)},
    FieldsFromYaml fields →
      (fields.map (fun field => (field.1, rewritten field.2)) = fields ↔ FieldsKept fields)
  | [], _ => by simp [FieldsKept]
  | (key, value) :: fields, h => by
    rw [List.map_cons, List.cons.injEq, Prod.mk.injEq, FieldsKept, rewritten_eq_self_iff h.1,
      rewrittenFields_eq_self_iff h.2]
    simp

end

end Flusso
