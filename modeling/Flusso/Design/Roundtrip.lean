import Flusso.Design.Fields
import Flusso.Kernel.Parse

/-! # Regenerated schemas

A regenerated schema parses and converts to the same schema, but for nulls and
decimals: they come back as strings.
-/

namespace Flusso

open Yaml (object field? asRecord mandatory defaulted asStr)
open Attempts (bind_ok)

inductive LoadError where
  | parseSchema (source : Entities.ParseError)
  | convertSchema (source : ConversionError)

/-- A schema file, parsed and converted. -/
def IndexSchema.load [Numerals] (doc : Yaml) : Except LoadError IndexSchema := do
  let yaml ← (Entities.SchemaYaml.tryParse doc).mapError .parseSchema
  (IndexSchema.tryFrom yaml).mapError .convertSchema

/-- A schema with each of the values in its fields mapped. -/
def IndexSchema.mapValues (g : GenericValue → GenericValue) (schema : IndexSchema) : IndexSchema :=
  { schema with fields := mapAllValues g schema.fields }

theorem OptionsConverted.fromYaml_of_mem {options : Options} (h : OptionsConverted options) :
    ∀ value ∈ options.map Prod.snd, value.FromYaml := by
  intro value hvalue
  obtain ⟨option, hoption, rfl⟩ := List.mem_map.mp hvalue
  exact h.fromYaml option hoption

mutual

theorem Field.fromYaml_values : ∀ {f : Field}, f.Converted → ∀ value ∈ f.values, value.FromYaml
  | .column _ _ source, h => by
    intro value hvalue
    rcases List.mem_append.mp hvalue with hvalue | hvalue
    · exact h.2.1.fromYaml_of_mem value hvalue
    · exact (h.2.2.default value (Option.mem_toList.mp hvalue)).1
  | .group _ _ fields, h => by
    intro value hvalue
    rcases List.mem_append.mp hvalue with hvalue | hvalue
    · exact h.2.1.fromYaml_of_mem value hvalue
    · exact fromYaml_allValues h.2.2 value hvalue
  | .geo _ _ _, h => h.2.1.fromYaml_of_mem
  | .join _ _ _ fields, h => by
    intro value hvalue
    rcases List.mem_append.mp hvalue with hvalue | hvalue
    · exact h.2.1.fromYaml_of_mem value hvalue
    · exact fromYaml_allValues h.2.2.2 value hvalue
  | .aggregate _ _ _, h => h.2.1.fromYaml_of_mem
  | .constant _ _ _, h => by
    obtain ⟨-, rfl, hconstant⟩ := h
    intro value hvalue
    obtain rfl := List.mem_singleton.mp hvalue
    exact hconstant

theorem fromYaml_allValues : ∀ {fields : List Field}, AllConverted fields →
    ∀ value ∈ allValues fields, value.FromYaml
  | [], _ => by simp [allValues]
  | f :: fields, h => by
    intro value hvalue
    rcases List.mem_append.mp hvalue with hvalue | hvalue
    · exact f.fromYaml_values h.1 value hvalue
    · exact fromYaml_allValues h.2 value hvalue

end

namespace Codegen

theorem mapError_ok {ε δ α : Type} {f : ε → δ} {result : Except ε α} {a : α} :
    result.mapError f = .ok a ↔ result = .ok a := by
  cases result <;> simp [Except.mapError]

variable [Numerals] {doc : Yaml} {schema : IndexSchema}

theorem converted_of_load (h : IndexSchema.load doc = .ok schema) : schema.Converted := by
  obtain ⟨yaml, hparse, hconvert⟩ := bind_ok.mp h
  obtain ⟨result, hread, hversion⟩ := bind_ok.mp (mapError_ok.mp hparse)
  split_ifs at hversion with hsupported
  cases hversion
  refine IndexSchema.converted_of_tryFrom hsupported ?_ (mapError_ok.mp hconvert)
  obtain ⟨record, -, hread⟩ := bind_ok.mp (mapError_ok.mp hread)
  obtain ⟨version, -, hread⟩ := bind_ok.mp hread
  obtain ⟨table, -, hread⟩ := bind_ok.mp hread
  obtain ⟨dbSchema, -, hread⟩ := bind_ok.mp hread
  obtain ⟨primaryKey, -, hread⟩ := bind_ok.mp hread
  obtain ⟨docId, -, hread⟩ := bind_ok.mp hread
  obtain ⟨softDelete, -, hread⟩ := bind_ok.mp hread
  obtain ⟨filters, -, hread⟩ := bind_ok.mp hread
  obtain ⟨fields, hfields, hread⟩ := bind_ok.mp hread
  cases hread
  cases hget : Json.get record "fields" with
  | none =>
    rw [hget] at hfields
    cases hfields
  | some value =>
    rw [hget] at hfields
    exact Entities.parsed_readAll hfields

theorem read_softDeleteOpt {fields : List (String × Yaml)} {softDelete : Option SoftDelete}
    (h : ∀ s, softDelete = some s → s.Converted)
    (hget : Json.get fields "soft_delete" = softDelete.map softDeleteValue) :
    ∃ e, Yaml.optional fields "soft_delete" Entities.SoftDelete.read = some e ∧
      Conversion.softDeleteOpt e = .ok softDelete := by
  rw [Yaml.optional_of_get hget]
  cases softDelete with
  | none => exact ⟨none, rfl, rfl⟩
  | some s =>
    obtain ⟨e, he, hconverted⟩ := read_softDelete (h s rfl)
    refine ⟨some e, ?_, ?_⟩
    · cases s <;> exact congrArg (Option.map some) he
    · rw [Conversion.softDeleteOpt, hconverted]
      rfl

/-- A schema written as a file is loaded with its values rewritten. -/
theorem load_schemaToYaml (h : schema.Converted) :
    IndexSchema.load (schemaToYaml schema) = .ok (schema.mapValues rewritten) := by
  obtain ⟨version, table, dbSchema, primaryKey, docId, softDelete, filters, fields⟩ := schema
  obtain ⟨hversion, htable, hdbSchema, hprimaryKey, hdocId, hsoftDelete, hfilters, hfields⟩ := h
  simp only at hversion htable hdbSchema hprimaryKey hdocId hsoftDelete hfilters hfields
  obtain rfl : version = 1 := List.mem_singleton.mp hversion
  subst hdocId
  generalize hown : ([("version", .number (.posInt (UInt64.ofNat (1 : UInt8).toNat))),
    ("table", .string table.name)] ++
    field? "schema" (if dbSchema.name = "public" then none else some (.string dbSchema.name)) ++
    field? "primary_key" (primaryKey.map fun pk => .string pk.name) ++
    field? "soft_delete" (softDelete.map softDeleteValue) ++
    field? "filters" (filters.map filtersValue) ++
    [("fields", .sequence (fieldValues fields))] : List (String × Yaml)) = own
  have hrecord : asRecord ["version", "table", "schema", "primary_key", "doc_id", "soft_delete",
      "filters", "fields"] (object own) = some own :=
    Yaml.asRecord_object (by simp +contextual [← hown, or_imp, forall_and])
  have hversion' : mandatory own "version" Entities.SchemaYaml.asU8 = some 1 := by
    simp [← hown, mandatory, Json.get_cons]
    rfl
  have htable' : mandatory own "table" asStr = some table.name := by
    simp [← hown, mandatory, Json.get_cons, asStr]
  have hschema : ∃ e, Yaml.optional own "schema" asStr = some e ∧
      Conversion.databaseSchema e = .ok dbSchema := by
    have hget : Json.get own "schema" =
        if dbSchema.name = "public" then none else some (.string dbSchema.name) := by
      simp [← hown, Json.get_cons]
    rw [Yaml.optional_of_get hget]
    split_ifs with hpublic
    · exact ⟨none, rfl, by rw [Conversion.databaseSchema, ← hpublic]; rfl⟩
    · exact ⟨some dbSchema.name, rfl, Conversion.orElse_ok.mpr hdbSchema⟩
  have hprimary : ∃ e, Yaml.optional own "primary_key" asStr = some e ∧
      Conversion.columnOpt e = .ok primaryKey := by
    have hget : Json.get own "primary_key" = primaryKey.map fun pk => .string pk.name := by
      simp [← hown, Json.get_cons]
    rw [Yaml.optional_of_get hget]
    cases primaryKey with
    | none => exact ⟨none, rfl, rfl⟩
    | some pk =>
      refine ⟨some pk.name, rfl, ?_⟩
      rw [Conversion.columnOpt, Conversion.orElse_ok.mpr (hprimaryKey pk rfl)]
      rfl
  have hdocId : Yaml.optional own "doc_id" asStr = some none := by
    simp [← hown, Yaml.optional, defaulted, Json.get_cons]
  obtain ⟨s, hs, hs'⟩ := @read_softDeleteOpt _ own _ hsoftDelete (by simp [← hown, Json.get_cons])
  obtain ⟨fs, hfs, hfs'⟩ := @read_filters _ own "filters" _ hfilters (by simp [← hown, Json.get_cons])
  obtain ⟨es, hread, hconverted⟩ := fields_readBack hfields
  have hget : Json.get own "fields" = some (.sequence (fieldValues fields)) := by
    simp [← hown, Json.get_cons]
  obtain ⟨dbSchema', hschema, hschema'⟩ := hschema
  obtain ⟨primaryKey', hprimary, hprimary'⟩ := hprimary
  have hparse : Entities.SchemaYaml.tryParse (object own) =
      .ok ⟨1, table.name, dbSchema', primaryKey', none, s, fs, es⟩ := by
    rw [Entities.SchemaYaml.tryParse, Entities.SchemaYaml.read]
    simp only [hrecord, hversion', htable', hschema, hprimary, hdocId, hs, hfs, hget,
      Entities.Field.orShape, Option.elim_some, Entities.Field.readAll, hread, bind, Except.bind]
    rfl
  rw [schemaToYaml, hown, IndexSchema.load, hparse]
  have hnone : Conversion.columnOpt none = .ok none := rfl
  simp only [IndexSchema.tryFrom, Conversion.orElse_ok.mpr htable, hschema', hprimary', hs', hfs',
    hconverted, hnone, Conversion.refuse, bind, Except.bind, Except.mapError]
  rfl

/-- Writing a loaded schema and loading it again yields it exactly if no option, default or
constant in it holds a null or a decimal, at any depth. -/
theorem roundtrips_iff (h : IndexSchema.load doc = .ok schema) :
    IndexSchema.load (schemaToYaml schema) = .ok schema ↔
      ∀ value ∈ allValues schema.fields, value.Kept := by
  have hconverted := converted_of_load h
  rw [load_schemaToYaml hconverted, Except.ok.injEq]
  have hself : schema.mapValues rewritten = schema ↔
      mapAllValues rewritten schema.fields = schema.fields := by
    constructor
    · exact congrArg IndexSchema.fields
    · intro heq
      rw [IndexSchema.mapValues, heq]
  rw [hself, mapAllValues_eq_self_iff]
  have hfrom := fromYaml_allValues hconverted.fields
  constructor
  · exact fun heq value hvalue => (rewritten_eq_self_iff (hfrom value hvalue)).mp (heq value hvalue)
  · exact fun hkept value hvalue =>
      (rewritten_eq_self_iff (hfrom value hvalue)).mpr (hkept value hvalue)

end Codegen

/-- The numbers that need no rounding, as they are written out. -/
abbrev exactNumerals : Numerals where
  floatText bits := floatText BinaryFloat.double (2 ^ 63) bits.toNat
  decimal := Decimal.fromStrExact

namespace Codegen

/-- A schema file with one column, which stands at a value when it is null. -/
def pricesDoc (default : Yaml) : Yaml :=
  object [("version", .number (.posInt 1)), ("table", .string "products"),
    ("fields", .sequence [object [("decimal", .string "price"), ("required", .bool true),
      ("default", default)]])]

def pricesSchema (default : GenericValue) : IndexSchema where
  version := 1
  table := ⟨"products"⟩
  dbSchema := ⟨"public"⟩
  primaryKey := none
  docId := none
  softDelete := none
  filters := none
  fields := [.column ⟨"price"⟩ [] {
    column := ⟨"price"⟩
    ty := .decimal
    nullable := false
    transforms := []
    default := some default
    enumOrder := [] }]

theorem roundtrips_of_integer :
    @IndexSchema.load exactNumerals (schemaToYaml (pricesSchema (.bigInt 12))) =
        .ok (pricesSchema (.bigInt 12)) ↔
      ∀ value ∈ allValues (pricesSchema (.bigInt 12)).fields, value.Kept :=
  @roundtrips_iff exactNumerals (pricesDoc (.number (.posInt 12))) _ rfl

/-- A default of a half comes back as a string. -/
theorem not_roundtrips : ¬ ∀ [Numerals] {doc : Yaml} {schema : IndexSchema},
    IndexSchema.load doc = .ok schema → IndexSchema.load (schemaToYaml schema) = .ok schema := by
  intro h
  have hload : @IndexSchema.load exactNumerals (pricesDoc (.number (.float 0x3FE0000000000000))) =
      .ok (pricesSchema (.decimal ⟨false, 5, 1, by decide, by decide⟩)) := by
    rfl
  have hsame := @h exactNumerals _ _ hload
  have hback : @IndexSchema.load exactNumerals
      (schemaToYaml (pricesSchema (.decimal ⟨false, 5, 1, by decide, by decide⟩))) =
        .ok (pricesSchema (.string "0.5")) := by
    rfl
  rw [hback] at hsame
  simp [pricesSchema] at hsame

end Codegen

end Flusso
