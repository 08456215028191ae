import Flusso.Config.Conversion
import Flusso.Sink.Values

/-! # What schema values denote

A YAML value without tags denotes the JSON document of the same shape, if its
mappings have strings for keys and each once. A filter's operands are the
scalars written under it.
-/

namespace Yaml

/-- The number that a finite number is. -/
def Number.value : Number → Option ℚ
  | posInt n => some n.toNat
  | negInt i => some i.toInt
  | float bits => if Flusso.isFinite bits then some (Flusso.doubleValue bits) else none

open Flusso

mutual

/-- The JSON documents a value denotes: entry by entry and number by number. -/
def Denotes : Yaml → JsonValue → Prop
  | null, .null => True
  | bool a, .bool b => a = b
  | number n, .number m => n.value = some m.value
  | string s, .string t => s = t
  | sequence items, .array values => ItemsDenote items values
  | mapping entries, .object fields =>
    (∃ keys : List String, entries.map Prod.fst = keys.map string ∧
      keys.Perm (fields.map Prod.fst)) ∧ EntriesDenote entries fields
  | _, _ => False

def ItemsDenote : List Yaml → List JsonValue → Prop
  | [], [] => True
  | item :: items, value :: values => Denotes item value ∧ ItemsDenote items values
  | _, _ => False

def EntriesDenote : List (Yaml × Yaml) → List (String × JsonValue) → Prop
  | [], _ => True
  | (.string key, item) :: entries, fields =>
    (∃ value, Json.get fields key = some value ∧ Denotes item value) ∧ EntriesDenote entries fields
  | (_, _) :: _, _ => False

end

theorem denotes_number {n : Number} {m : JsonNumber} :
    Denotes (number n) (.number m) ↔ n.value = some m.value := Iff.rfl

theorem not_denotes_string {n : Number} {s : String} : ¬ Denotes (number n) (.string s) :=
  fun h => h

theorem not_denotes_tagged {tag : String} {value : Yaml} {json : JsonValue} :
    ¬ Denotes (tagged tag value) json := by
  cases json <;> exact fun h => h

theorem value_of_asI64 {n : Number} {i : Int64} (h : n.asI64 = some i) :
    n.value = some (i.toInt : ℚ) := by
  cases n with
  | posInt n =>
    obtain ⟨hlt, rfl⟩ : n.toNat < 2 ^ 63 ∧ Int64.ofNat n.toNat = i := by
      simpa [Number.asI64] using h
    rw [Number.value, Int64.toInt_ofNat_of_lt (by omega)]
    rfl
  | negInt j => rw [Number.value, Option.some.inj h]
  | float bits => cases h

theorem exists_pairs {entries : List (Yaml × Yaml)} {keys : List String}
    (h : entries.map Prod.fst = keys.map string) :
    ∃ pairs : List (String × Yaml), pairs.map Prod.fst = keys ∧
      entries = pairs.map fun pair => (string pair.1, pair.2) := by
  induction entries generalizing keys with
  | nil => exact ⟨[], by simpa using h.symm, rfl⟩
  | cons entry entries ih =>
    cases keys with
    | nil => cases h
    | cons key keys =>
      rw [List.map_cons, List.map_cons, List.cons.injEq] at h
      obtain ⟨pairs, hkeys, rfl⟩ := ih h.2
      refine ⟨(key, entry.2) :: pairs, by rw [List.map_cons, hkeys], ?_⟩
      rw [List.map_cons, ← h.1]

section Conversion

variable [Decimals]

/-- A 64-bit integer, or a number whose decimal is written as that number. -/
def Number.Kept (n : Number) : Prop :=
  n.asI64.isSome = true ∨ ∃ d m, Numerals.decimal (numberText n) = some d ∧
    d.number = some m ∧ n.value = some m.value

mutual

/-- No tags, only strings as keys and each once, and only numbers that are kept. -/
def Plain : Yaml → Prop
  | number n => n.Kept
  | sequence items => ItemsPlain items
  | mapping entries =>
    (∃ keys : List String, entries.map Prod.fst = keys.map string ∧ keys.Nodup) ∧
      EntriesPlain entries
  | tagged _ _ => False
  | _ => True

def ItemsPlain : List Yaml → Prop
  | [] => True
  | item :: items => Plain item ∧ ItemsPlain items

def EntriesPlain : List (Yaml × Yaml) → Prop
  | [] => True
  | (_, item) :: entries => Plain item ∧ EntriesPlain entries

end

theorem denotes_number_iff (n : Number) :
    Denotes (number n) (toJson (yamlToGeneric (number n))) ↔ n.Kept := by
  unfold Number.Kept
  cases hint : n.asI64 with
  | some i =>
    have hvalue : n.value = some (JsonNumber.fromI64 i).value := by
      rw [JsonNumber.value_fromI64, value_of_asI64 hint]
    simp [yamlToGeneric, hint, toJson, denotes_number, hvalue]
  | none =>
    cases hdecimal : Numerals.decimal (numberText n) with
    | none => simp [yamlToGeneric, hint, hdecimal, toJson, not_denotes_string]
    | some d =>
      cases hnumber : d.number with
      | none =>
        simp [yamlToGeneric, hint, hdecimal, toJson, decimalToJson, hnumber, not_denotes_string]
      | some m =>
        simp [yamlToGeneric, hint, hdecimal, toJson, decimalToJson, hnumber, denotes_number]

theorem yamlToFields_pairs (pairs : List (String × Yaml)) :
    yamlToFields (pairs.map fun pair => (string pair.1, pair.2)) =
      pairs.map fun pair => (pair.1, yamlToGeneric pair.2) := by
  induction pairs with
  | nil => rfl
  | cons pair pairs ih => rw [List.map_cons, yamlToFields, ih, List.map_cons]

theorem get_fieldsToJson {pairs : List (String × Yaml)} (h : (pairs.map Prod.fst).Nodup)
    {pair : String × Yaml} (hmem : pair ∈ pairs) :
    Json.get (fieldsToJson (Json.ofPairs (yamlToFields
      (pairs.map fun pair => (string pair.1, pair.2))))) pair.1 =
        some (toJson (yamlToGeneric pair.2)) := by
  rw [yamlToFields_pairs, fieldsToJson_eq_map, Json.get_map]
  have hnodup : ((pairs.map fun pair => (pair.1, yamlToGeneric pair.2)).map Prod.fst).Nodup := by
    rwa [List.map_map]
  rw [Json.get_ofPairs_of_mem hnodup (List.mem_map.mpr ⟨pair, hmem, rfl⟩), Option.map_some]

theorem keys_fieldsToJson {pairs : List (String × Yaml)} :
    (fieldsToJson (Json.ofPairs (yamlToFields
      (pairs.map fun pair => (string pair.1, pair.2))))).map Prod.fst =
        (Json.ofPairs (pairs.map fun pair => (pair.1, yamlToGeneric pair.2))).map Prod.fst := by
  rw [yamlToFields_pairs, fieldsToJson_eq_map, List.map_map]
  rfl

theorem exists_keys_iff {entries : List (Yaml × Yaml)} :
    (∃ keys : List String, entries.map Prod.fst = keys.map string ∧ keys.Perm
      ((fieldsToJson (Json.ofPairs (yamlToFields entries))).map Prod.fst)) ↔
        ∃ keys : List String, entries.map Prod.fst = keys.map string ∧ keys.Nodup := by
  constructor
  · rintro ⟨keys, hkeys, hperm⟩
    refine ⟨keys, hkeys, ?_⟩
    obtain ⟨pairs, rfl, rfl⟩ := exists_pairs hkeys
    rw [keys_fieldsToJson] at hperm
    exact hperm.nodup_iff.mpr Json.sorted_ofPairs.nodup_keys
  · rintro ⟨keys, hkeys, hnodup⟩
    refine ⟨keys, hkeys, ?_⟩
    obtain ⟨pairs, rfl, rfl⟩ := exists_pairs hkeys
    rw [keys_fieldsToJson]
    have hmap : (pairs.map fun pair => (pair.1, yamlToGeneric pair.2)).map Prod.fst =
        pairs.map Prod.fst := by
      rw [List.map_map]
      rfl
    have hperm := @Json.keys_ofPairs_perm _ (pairs.map fun pair => (pair.1, yamlToGeneric pair.2))
      (hmap.symm ▸ hnodup)
    exact (hmap ▸ hperm).symm

mutual

theorem denotes_toJson_iff : ∀ v : Yaml, Denotes v (toJson (yamlToGeneric v)) ↔ Plain v
  | .null => by simp [yamlToGeneric, toJson, Denotes, Plain]
  | .bool _ => by simp [yamlToGeneric, toJson, Denotes, Plain]
  | .string _ => by simp [yamlToGeneric, toJson, Denotes, Plain]
  | .number n => by
    rw [Plain]
    exact denotes_number_iff n
  | .sequence items => by
    rw [yamlToGeneric, toJson, Denotes, Plain]
    exact itemsDenote_iff items
  | .mapping entries => by
    rw [yamlToGeneric, toJson, Denotes, Plain, exists_keys_iff]
    apply and_congr_right
    rintro ⟨keys, hkeys, hnodup⟩
    obtain ⟨pairs, rfl, rfl⟩ := exists_pairs hkeys
    apply entriesDenote_iff
    · intro key item hmem
      have hpair : (key, item) ∈ pairs := by simpa using hmem
      exact get_fieldsToJson hnodup hpair
    · rintro entry hentry
      obtain ⟨pair, -, rfl⟩ := List.mem_map.mp hentry
      exact ⟨pair.1, rfl⟩
  | .tagged _ value => by
    rw [Plain, iff_false]
    exact not_denotes_tagged

theorem itemsDenote_iff : ∀ items : List Yaml,
    ItemsDenote items (itemsToJson (yamlToItems items)) ↔ ItemsPlain items
  | [] => by simp [yamlToItems, itemsToJson, ItemsDenote, ItemsPlain]
  | item :: items => by
    rw [yamlToItems, itemsToJson, ItemsDenote, ItemsPlain, denotes_toJson_iff item,
      itemsDenote_iff items]

theorem entriesDenote_iff : ∀ (entries : List (Yaml × Yaml)) {fields : List (String × JsonValue)},
    (∀ key item, (string key, item) ∈ entries →
      Json.get fields key = some (toJson (yamlToGeneric item))) →
    (∀ entry ∈ entries, ∃ key, entry.1 = string key) →
    (EntriesDenote entries fields ↔ EntriesPlain entries)
  | [], _, _, _ => by simp [EntriesDenote, EntriesPlain]
  | (.string key, item) :: entries, fields, hget, hkeys => by
    rw [EntriesDenote, EntriesPlain, hget key item List.mem_cons_self,
      entriesDenote_iff entries (fun key item h => hget key item (List.mem_cons_of_mem _ h))
        fun entry h => hkeys entry (List.mem_cons_of_mem _ h)]
    simp [denotes_toJson_iff item]
  | (.null, _) :: _, _, _, hkeys | (.bool _, _) :: _, _, _, hkeys | (.number _, _) :: _, _, _, hkeys
  | (.sequence _, _) :: _, _, _, hkeys | (.mapping _, _) :: _, _, _, hkeys
  | (.tagged _ _, _) :: _, _, _, hkeys => by
    obtain ⟨key, hkey⟩ := hkeys _ List.mem_cons_self
    cases hkey

end

end Conversion

/-- The text of a scalar operand. -/
def scalarText [Numerals] : Yaml → Option String
  | string s => some s
  | number n => some (numberText n)
  | bool b => some (toString b)
  | _ => none

def isScalar : Yaml → Bool
  | string _ | number _ | bool _ => true
  | _ => false

theorem scalarText_eq_iff [Numerals] {v : Yaml} :
    v.scalarText = some (yamlScalarToString v) ↔ v.isScalar = true := by
  cases v <;> simp [scalarText, yamlScalarToString, isScalar]

end Yaml

namespace Flusso

def FilterValue.operands : FilterValue → List String
  | .single value => [value]
  | .list values => values
  | .range lower upper => [lower, upper]

namespace Entities.FilterOp

/-- Whether an operator takes any number of operands. -/
def takesList : Entities.FilterOp → Bool
  | .isIn | .notIn => true
  | _ => false

/-- What is written as the operands of an operator: the items of a list, or the value. -/
def written (op : Entities.FilterOp) (value : Yaml) : List Yaml :=
  match op, value with
  | .isIn, .sequence items | .notIn, .sequence items | .between, .sequence items => items
  | _, value => [value]

/-- Whether a value has the shape an operator takes. -/
def takes (op : Entities.FilterOp) (value : Yaml) : Bool :=
  match op with
  | .isIn | .notIn => (value matches .sequence _)
  | .between => (value matches .sequence [_, _])
  | _ => true

end Entities.FilterOp

namespace Conversion

section Operands

variable [Numerals] {op : Entities.FilterOp} {v : Yaml}

/-- A value of the shape its operator takes is converted, operand by operand. -/
theorem filterValue_some (op : Entities.FilterOp) (v : Yaml) :
    (∃ result, filterValue op (some v) = .ok result ∧ op.takes v = true ∧
      result.operands = (op.written v).map yamlScalarToString) ∨
    ((∃ error, filterValue op (some v) = .error error) ∧ op.takes v = false) := by
  cases op with
  | isIn | notIn =>
    cases v with
    | sequence items => exact Or.inl ⟨_, rfl, rfl, rfl⟩
    | _ => exact Or.inr ⟨⟨_, rfl⟩, rfl⟩
  | between =>
    cases v with
    | sequence items =>
      match items with
      | [lower, upper] => exact Or.inl ⟨_, rfl, rfl, rfl⟩
      | [] => exact Or.inr ⟨⟨_, rfl⟩, rfl⟩
      | [_] => exact Or.inr ⟨⟨_, rfl⟩, rfl⟩
      | _ :: _ :: _ :: _ => exact Or.inr ⟨⟨_, rfl⟩, rfl⟩
    | _ => exact Or.inr ⟨⟨_, rfl⟩, rfl⟩
  | _ => exact Or.inl ⟨_, rfl, rfl, rfl⟩

/-- The operands of a filter are the scalars that were written, in order, and some if the operator
takes a list. -/
def OperandsKept (op : Entities.FilterOp) (value : Option Yaml) : Prop :=
  ∀ result, filterValue op value = .ok result → ∃ v, value = some v ∧
    (op.written v).mapM Yaml.scalarText = some result.operands ∧
    (op.takesList = true → result.operands ≠ [])

/-- Whatever has the shape an operator takes is made of scalars, and is not empty where any number
of them is taken. -/
def OperandsPlain (op : Entities.FilterOp) (value : Option Yaml) : Prop :=
  ∀ v, value = some v → op.takes v = true →
    (∀ operand ∈ op.written v, operand.isScalar = true) ∧
      (op.takesList = true → op.written v ≠ [])

theorem mapM_scalarText_iff {operands : List Yaml} :
    operands.mapM Yaml.scalarText = some (operands.map yamlScalarToString) ↔
      ∀ operand ∈ operands, operand.isScalar = true := by
  induction operands with
  | nil => simp
  | cons operand operands ih =>
    rw [List.mapM_cons, List.map_cons, List.forall_mem_cons, ← ih, ← Yaml.scalarText_eq_iff]
    cases operand.scalarText with
    | none => simp
    | some text =>
      cases operands.mapM Yaml.scalarText with
      | none => simp
      | some texts => simp

theorem operandsKept_iff (op : Entities.FilterOp) (value : Option Yaml) :
    OperandsKept op value ↔ OperandsPlain op value := by
  unfold OperandsKept OperandsPlain
  cases value with
  | none =>
    constructor
    · rintro - v ⟨⟩
    · rintro - result ⟨⟩
  | some v =>
    obtain ⟨result, hresult, htakes, hoperands⟩ | ⟨⟨error, herror⟩, htakes⟩ := filterValue_some op v
    · constructor
      · rintro hkept v' ⟨⟩ -
        obtain ⟨v', ⟨⟩, hmapM, hne⟩ := hkept result hresult
        rw [hoperands] at hmapM hne
        refine ⟨mapM_scalarText_iff.mp hmapM, fun hlist hnil => hne hlist ?_⟩
        rw [hnil, List.map_nil]
      · rintro hplain result' hresult'
        obtain rfl : result = result' := Except.ok.inj (hresult.symm.trans hresult')
        obtain ⟨hscalar, hne⟩ := hplain v rfl htakes
        refine ⟨v, rfl, ?_, ?_⟩
        · rw [hoperands]
          exact mapM_scalarText_iff.mpr hscalar
        · rw [hoperands]
          exact fun hlist hnil => hne hlist (List.map_eq_nil_iff.mp hnil)
    · constructor
      · rintro - v' ⟨⟩ htakes'
        rw [htakes] at htakes'
        cases htakes'
      · rintro - result hresult
        rw [herror] at hresult
        cases hresult

end Operands

/-- A constant or an option reaches the sink as the document it denotes just where it is plain, and
a filter has the operands it was written with just where those are plain. -/
theorem denotes_and_operandsKept_iff [Decimals] :
    (∀ v : Yaml, v.Denotes (toJson (yamlToGeneric v)) ↔ v.Plain) ∧
      ∀ op value, OperandsKept op value ↔ OperandsPlain op value :=
  ⟨Yaml.denotes_toJson_iff, operandsKept_iff⟩

/-- An entry under a number is dropped, and a list stands for nothing under `eq`. -/
theorem not_denotes_and_operandsKept :
    (¬ ∀ [Decimals] (v : Yaml), v.Denotes (toJson (yamlToGeneric v))) ∧
      ¬ ∀ [Numerals] (op : Entities.FilterOp) (value : Option Yaml), OperandsKept op value := by
  constructor
  · intro h
    have hplain := (@Yaml.denotes_toJson_iff exactDecimals
      (.mapping [(.number (.posInt 1), .string "one")])).mp (@h exactDecimals _)
    obtain ⟨⟨keys, hkeys, -⟩, -⟩ := hplain
    cases keys with
    | nil => cases hkeys
    | cons key keys => cases hkeys
  · intro h
    have hplain := (@operandsKept_iff exactDecimals.toNumerals .eq
      (some (.sequence [.number (.posInt 1)]))).mp (@h exactDecimals.toNumerals _ _)
    have hscalar := (hplain _ rfl rfl).1 _ List.mem_cons_self
    cases hscalar

end Conversion

end Flusso
