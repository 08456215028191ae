import Flusso.Config.Converted
import Flusso.Design.Codegen

/-! # Reading back what was written

Each part of a field's body is read from where it was written and converts to
what it was written for.
-/

namespace Flusso

open Yaml (object field? asRecord mandatory defaulted asList asStr asBool asU64 asOption)
open Attempts (bind_ok)

namespace Codegen

theorem hasTag_filterValue (f : Filter) : Entities.hasTag (filterValue f) = false := by
  have hitems (items : List String) : Entities.itemsHaveTag (items.map .string) = false := by
    induction items with
    | nil => rfl
    | cons item items ih => simp [Entities.itemsHaveTag, Entities.hasTag, ih]
  cases f with
  | raw sql => rfl
  | nullCheck column op => cases op <;> rfl
  | valueOp column op value =>
    cases value with
    | list items => cases op <;> simp [filterValue, object, filterOpYaml, filterOperand,
        Entities.hasTag, Entities.entriesHaveTag, hitems]
    | _ => cases op <;> rfl

theorem read_filterOp (op : FilterOp) : ∃ e, Entities.FilterOp.read (filterOpYaml op) = some e ∧
    Conversion.filterOp e = op := by
  cases op <;> exact ⟨_, rfl, rfl⟩

theorem read_nullOp (op : NullOp) : ∃ e, Entities.NullOp.read (nullOpYaml op) = some e ∧
    Conversion.nullOp e = op := by
  cases op <;> exact ⟨_, rfl, rfl⟩

section Filters

variable [Numerals]

theorem filterValue_operand {e : Entities.FilterOp} {value : FilterValue}
    (h : match value with
      | .list _ => Conversion.filterOp e = .isIn ∨ Conversion.filterOp e = .notIn
      | .range _ _ => Conversion.filterOp e = .between
      | .single _ => Conversion.filterOp e ≠ .isIn ∧ Conversion.filterOp e ≠ .notIn ∧
          Conversion.filterOp e ≠ .between) :
    Conversion.filterValue e (some (filterOperand value)) = .ok value := by
  have hlist (items : List String) : (items.map Yaml.string).map yamlScalarToString = items := by
    rw [List.map_map]
    exact List.map_id'' (fun _ => rfl) items
  cases value with
  | list items =>
    cases e <;> simp [Conversion.filterOp] at h <;>
      simpa [Conversion.filterValue, Conversion.orElse, filterOperand, pure, Except.pure, bind,
        Except.bind] using hlist items
  | range lower upper =>
    cases e <;> simp [Conversion.filterOp] at h
    rfl
  | single s => cases e <;> simp [Conversion.filterOp] at h <;> rfl

theorem read_filterValue {f : Filter} (h : f.Converted) :
    ∃ e, Entities.Filter.read (filterValue f) = some e ∧ Conversion.filter e = .ok f := by
  have htag := hasTag_filterValue f
  cases f with
  | raw sql =>
    refine ⟨.raw ⟨sql, h⟩, ?_, rfl⟩
    rw [Entities.Filter.read, htag]
    simp [filterValue, Entities.Filter.readRaw, Yaml.asRecord_object_eq, mandatory, Json.get_cons,
      Entities.readRawFilterValue_of_valid h]
  | nullCheck column op =>
    obtain ⟨e, he, rfl⟩ := read_nullOp op
    refine ⟨.nullCheck ⟨column, h⟩ e, ?_, rfl⟩
    rw [Entities.Filter.read, htag]
    simp [filterValue, Entities.Filter.readRaw, Entities.Filter.readNullCheck,
      Yaml.asRecord_object_eq, mandatory, Json.get_cons, Entities.readColumnName_of_valid h, he]
  | valueOp column op value =>
    obtain ⟨hcolumn, hvalue⟩ := h
    obtain ⟨e, he, rfl⟩ := read_filterOp op
    refine ⟨.valueOp ⟨column, hcolumn⟩ e (some (filterOperand value)), ?_, ?_⟩
    · rw [Entities.Filter.read, htag]
      have hoperand : asOption some (filterOperand value) = some (some (filterOperand value)) := by
        cases value <;> rfl
      simp [filterValue, Entities.Filter.readRaw, Entities.Filter.readNullCheck,
        Entities.Filter.readValueOp, Yaml.asRecord_object_eq, mandatory, Yaml.optional, defaulted,
        Json.get_cons, Entities.readColumnName_of_valid hcolumn, he, hoperand]
    · have hconverted : Conversion.filterValue e (some (filterOperand value)) = .ok value :=
        filterValue_operand (by cases value <;> exact hvalue)
      rw [Conversion.filter, hconverted]
      rfl

theorem read_filters {fields : List (String × Yaml)} {key : String} {filters : Option (List Filter)}
    (h : FiltersConverted filters) (hget : Json.get fields key = filters.map filtersValue) :
    ∃ es, Entities.readFilters fields key = some es ∧ Conversion.filtersOpt es = .ok filters := by
  rw [Entities.readFilters, Yaml.optional_of_get hget]
  cases filters with
  | none => exact ⟨none, rfl, rfl⟩
  | some fs =>
    obtain ⟨es, hes, hall⟩ := @Yaml.asList_sequence _ _ Entities.Filter.read filterValue
      (fun e f => Conversion.filter e = .ok f) fs fun f hf => read_filterValue (h fs rfl f hf)
    refine ⟨some es, ?_, ?_⟩
    · exact congrArg (Option.map some) hes
    · rw [Conversion.filtersOpt, mapM_of_forall₂ hall]
      rfl

end Filters

section Parts

variable {fields : List (String × Yaml)}

theorem read_direction (d : Direction) : ∃ e, Entities.Direction.read (directionYaml d) = some e ∧
    Conversion.direction e = d := by
  cases d <;> exact ⟨_, rfl, rfl⟩

theorem read_orderBy {o : OrderBy} (h : o.column.Valid) :
    ∃ e, Entities.OrderBy.read (object ([("column", .string o.column.name)] ++
      field? "direction" (o.direction.map directionYaml))) = some e ∧ Conversion.orderBy e = o := by
  obtain ⟨fields, hfields⟩ : ∃ fields, fields = [("column", .string o.column.name)] ++
    field? "direction" (o.direction.map directionYaml) := ⟨_, rfl⟩
  have hrecord : asRecord ["column", "direction"] (object fields) = some fields :=
    Yaml.asRecord_object (by simp +contextual [hfields])
  have hcolumn : mandatory fields "column" Entities.readColumnName = some ⟨o.column, h⟩ := by
    simp [hfields, mandatory, Json.get_cons, Entities.readColumnName_of_valid h]
  have hget : Json.get fields "direction" = o.direction.map directionYaml := by
    simp [hfields, Json.get_cons]
  have hdirection : ∃ d, Yaml.optional fields "direction" Entities.Direction.read = some d ∧
      d.map Conversion.direction = o.direction := by
    rw [Yaml.optional_of_get hget]
    cases o.direction with
    | none => exact ⟨none, rfl, rfl⟩
    | some d =>
      obtain ⟨e, he, hconverted⟩ := read_direction d
      refine ⟨some e, ?_, congrArg some hconverted⟩
      cases d <;> exact congrArg (Option.map some) he
  obtain ⟨d, hd, hconverted⟩ := hdirection
  refine ⟨⟨⟨o.column, h⟩, d⟩, ?_, ?_⟩
  · rw [← hfields]
    simp [Entities.OrderBy.read, hrecord, hcolumn, hd]
  · rw [Conversion.orderBy, hconverted]

theorem read_orderByValue {orderBy : Option (List OrderBy)}
    (h : ∀ os, orderBy = some os → ∀ o ∈ os, o.column.Valid)
    (hget : Json.get fields "order_by" = orderBy.map orderByValue) :
    ∃ es, Yaml.optional fields "order_by" (asList Entities.OrderBy.read) = some es ∧
      (es.map fun es => es.map Conversion.orderBy) = orderBy := by
  rw [Yaml.optional_of_get hget]
  cases orderBy with
  | none => exact ⟨none, rfl, rfl⟩
  | some os =>
    obtain ⟨es, hes, hall⟩ := @Yaml.asList_sequence _ _ Entities.OrderBy.read _
      (fun e o => Conversion.orderBy e = o) os fun o ho => read_orderBy (h os rfl o ho)
    exact ⟨some es, congrArg (Option.map some) hes, congrArg some (map_of_forall₂ hall)⟩

theorem read_transforms {transforms : List Transform}
    (hget : Json.get fields "transforms" =
      if transforms = [] then none else some (transformsValue transforms)) :
    ∃ ts, Yaml.optional fields "transforms" (asList Entities.Transform.read) = some ts ∧
      ((ts.map fun ts => ts.map Conversion.transform).getD []) = transforms := by
  rw [Yaml.optional_of_get hget]
  split_ifs with hnil
  · exact ⟨none, rfl, hnil.symm⟩
  · obtain ⟨ts, hts, hall⟩ := @Yaml.asList_sequence _ _ Entities.Transform.read transformYaml
      (fun e t => Conversion.transform e = t) transforms fun t _ => by
        cases t <;> exact ⟨_, rfl, rfl⟩
    exact ⟨some ts, congrArg (Option.map some) hts, map_of_forall₂ hall⟩

theorem hasTag_filtersValue (filters : Option (List Filter)) (key : String) :
    Entities.entriesHaveTag ((field? key (filters.map filtersValue)).map fun field =>
      (.string field.1, field.2)) = false := by
  have hitems (fs : List Filter) : Entities.itemsHaveTag (fs.map filterValue) = false := by
    induction fs with
    | nil => rfl
    | cons f fs ih => simp [Entities.itemsHaveTag, hasTag_filterValue, ih]
  cases filters with
  | none => rfl
  | some fs => simp [field?, filtersValue, Entities.entriesHaveTag, Entities.hasTag, hitems]

/-- The column is found again, whether it was written or goes by the field's name. -/
theorem read_column {name : FieldName} {column : ColumnName} (hcolumn : column.Valid)
    (hget : Json.get fields "column" =
      if column.name = name.name then none else some (.string column.name)) :
    ∃ c, Yaml.optional fields "column" Entities.readColumnName = some c ∧
      Conversion.columnOr name c = .ok column := by
  rw [Yaml.optional_of_get hget]
  split_ifs with hname
  · refine ⟨none, rfl, ?_⟩
    rw [Conversion.columnOr, Conversion.defaultColumn, Conversion.orElse_ok, ← hname]
    exact hcolumn
  · exact ⟨some ⟨column, hcolumn⟩, congrArg (Option.map some)
      (Entities.readColumnName_of_valid hcolumn), rfl⟩

theorem asOption_toYaml (value : GenericValue) :
    asOption some value.toYaml = some (some value.toYaml) := by
  cases value <;> rfl

theorem read_type : ∀ ty : FlussoType, Entities.readType (typeYaml ty) = some ty
  | .map values => by
    change (Entities.readType (typeYaml values)).map FlussoType.map = _
    rw [read_type values]
    rfl
  | .custom postgres opensearch => by
    change ((Yaml.object [("postgres", .sequence (postgres.map .string)),
      ("opensearch", .string opensearch)]).asFields.bind fun fields =>
        (mandatory fields "postgres" (asList asStr)).bind fun postgres =>
          (mandatory fields "opensearch" asStr).bind fun opensearch =>
            some (FlussoType.custom postgres opensearch)) = _
    rw [Yaml.asFields_object]
    simp [mandatory, Json.get_cons, Yaml.asList_asStr, asStr]
  | .text | .identifier | .keyword | .enum | .uuid | .boolean | .short | .integer | .long | .float
  | .double | .decimal | .date | .timestamp | .binary | .json | .geoPoint => by
    rfl

variable [Numerals]

theorem read_through {t : Through} (h : t.Converted) :
    ∃ e, Entities.Through.read (throughValue t) = some e ∧ Conversion.through e = .ok t := by
  obtain ⟨fields, hfields⟩ : ∃ fields, fields = [("table", .string t.table.name),
    ("left_key", .string t.leftKey.name), ("right_key", .string t.rightKey.name)] ++
    field? "filters" (t.filters.map filtersValue) := ⟨_, rfl⟩
  have hrecord : asRecord ["table", "left_key", "right_key", "filters"] (object fields) =
      some fields := Yaml.asRecord_object (by simp +contextual [hfields])
  have htable : mandatory fields "table" Entities.readTableName = some ⟨t.table, h.table⟩ := by
    simp [hfields, mandatory, Json.get_cons, Entities.readTableName_of_valid h.table]
  have hleft : mandatory fields "left_key" Entities.readColumnName = some ⟨t.leftKey, h.leftKey⟩ := by
    simp [hfields, mandatory, Json.get_cons, Entities.readColumnName_of_valid h.leftKey]
  have hright : mandatory fields "right_key" Entities.readColumnName =
      some ⟨t.rightKey, h.rightKey⟩ := by
    simp [hfields, mandatory, Json.get_cons, Entities.readColumnName_of_valid h.rightKey]
  have hget : Json.get fields "filters" = t.filters.map filtersValue := by
    simp [hfields, Json.get_cons]
  obtain ⟨es, hes, hfilters⟩ := read_filters h.filters hget
  refine ⟨⟨⟨t.table, h.table⟩, ⟨t.leftKey, h.leftKey⟩, ⟨t.rightKey, h.rightKey⟩, es⟩, ?_, ?_⟩
  · rw [throughValue, ← hfields]
    simp [Entities.Through.read, hrecord, htable, hleft, hright, hes]
  · rw [Conversion.through, hfilters]
    rfl

theorem read_softDelete {s : SoftDelete} (h : s.Converted) :
    ∃ e, Entities.SoftDelete.read (softDeleteValue s) = some e ∧ Conversion.softDelete e = .ok s := by
  cases s with
  | field name filters =>
    obtain ⟨fields, hfields⟩ : ∃ fields, fields = [("field", .string name.name)] ++
      field? "when" (filters.map filtersValue) := ⟨_, rfl⟩
    have htag : Entities.hasTag (object fields) = false := by
      simp [hfields, object, Entities.hasTag, Entities.entriesHaveTag, hasTag_filtersValue]
    have hrecord : asRecord ["field", "when"] (object fields) = some fields :=
      Yaml.asRecord_object (by simp +contextual [hfields])
    have hname : mandatory fields "field" Entities.readFieldName = some ⟨name, h.1⟩ := by
      simp [hfields, mandatory, Json.get_cons, Entities.readFieldName_of_valid h.1]
    have hget : Json.get fields "when" = filters.map filtersValue := by
      simp [hfields, Json.get_cons]
    obtain ⟨es, hes, hfilters⟩ := read_filters h.2 hget
    refine ⟨.field ⟨name, h.1⟩ es, ?_, ?_⟩
    · rw [softDeleteValue, ← hfields, Entities.SoftDelete.read, htag]
      simp [Entities.SoftDelete.readField, hrecord, hname, hes]
    · rw [Conversion.softDelete, hfilters]
      rfl
  | column column filters =>
    obtain ⟨fields, hfields⟩ : ∃ fields, fields = [("column", .string column.name)] ++
      field? "when" (filters.map filtersValue) := ⟨_, rfl⟩
    have htag : Entities.hasTag (object fields) = false := by
      simp [hfields, object, Entities.hasTag, Entities.entriesHaveTag, hasTag_filtersValue]
    have hfield : asRecord ["field", "when"] (object fields) = none := by
      rw [Yaml.asRecord_object_eq, if_neg]
      simp [hfields]
    have hrecord : asRecord ["column", "when"] (object fields) = some fields :=
      Yaml.asRecord_object (by simp +contextual [hfields])
    have hcolumn : mandatory fields "column" Entities.readColumnName = some ⟨column, h.1⟩ := by
      simp [hfields, mandatory, Json.get_cons, Entities.readColumnName_of_valid h.1]
    have hget : Json.get fields "when" = filters.map filtersValue := by
      simp [hfields, Json.get_cons]
    obtain ⟨es, hes, hfilters⟩ := read_filters h.2 hget
    refine ⟨.column ⟨column, h.1⟩ es, ?_, ?_⟩
    · rw [softDeleteValue, ← hfields, Entities.SoftDelete.read, htag]
      simp [Entities.SoftDelete.readField, hfield, Entities.SoftDelete.readColumn, hrecord, hcolumn,
        hes]
    · rw [Conversion.softDelete, hfilters]
      rfl

/-- Options after they were written and read again. -/
def rewrittenOptions (options : Options) : Options :=
  options.map fun option => (option.1, rewritten option.2)

theorem read_fieldOptions {options : Options} (h : OptionsConverted options)
    (hget : Json.get fields "options" =
      if options = [] then none else some (optionsValue options)) :
    ∃ o, Entities.readFieldOptions fields = some o ∧
      Conversion.options o = rewrittenOptions options := by
  rw [Entities.readFieldOptions, defaulted, hget]
  split_ifs with hnil
  · exact ⟨⟨[], List.Pairwise.nil⟩, rfl, by rw [hnil]; rfl⟩
  · have hsorted : Json.Sorted (options.map fun option => (option.1, option.2.toYaml)) :=
      sorted_map_values h.sorted
    refine ⟨⟨_, hsorted⟩, Entities.readOptions_object hsorted, ?_⟩
    simp [Conversion.options, rewrittenOptions, rewritten]

theorem isDefault_rewritten {value : GenericValue} (hfrom : value.FromYaml) (h : value.IsDefault) :
    (rewritten value).IsDefault := by
  cases value with
  | bigInt i => simp [rewritten, GenericValue.toYaml, yamlToGeneric, Yaml.Number.asI64_ofI64,
      GenericValue.IsDefault]
  | null | bool _ | decimal _ | string _ => trivial
  | array _ | map _ => exact h.elim
  | _ => exact hfrom.elim

theorem read_default {d : Option GenericValue}
    (h : ∀ value, d = some value → value.FromYaml ∧ value.IsDefault)
    (hget : Json.get fields "default" = d.map GenericValue.toYaml) :
    ∃ e, Yaml.optional fields "default" some = some e ∧
      Conversion.default e = .ok (d.map rewritten) := by
  rw [Yaml.optional_of_get hget]
  cases d with
  | none => exact ⟨none, rfl, rfl⟩
  | some value =>
    obtain ⟨hfrom, hdefault⟩ := h value rfl
    refine ⟨some value.toYaml, asOption_toYaml value, ?_⟩
    have hrewritten := isDefault_rewritten hfrom hdefault
    rw [Conversion.default, Option.map_some, ← rewritten]
    generalize rewritten value = v at hrewritten
    cases v <;> first | rfl | exact hrewritten.elim

end Parts

end Codegen

end Flusso
