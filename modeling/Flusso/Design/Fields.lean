import Flusso.Design.Siblings

/-! # Fields written and read back

A field that was written parses, and converts to the field it was written for
with each of its values rewritten.
-/

namespace Flusso

open Yaml (object field? asRecord mandatory defaulted asList asStr asBool asU64 asOption)
open Attempts (bind_ok)

mutual

/-- A field with each of its options, defaults and constants mapped. -/
def Field.mapValues (g : GenericValue → GenericValue) : Field → Field
  | .column field options source =>
    .column field (options.map fun option => (option.1, g option.2))
      { source with default := source.default.map g }
  | .group field options fields =>
    .group field (options.map fun option => (option.1, g option.2)) (mapAllValues g fields)
  | .geo field options source => .geo field (options.map fun option => (option.1, g option.2)) source
  | .join field options source fields =>
    .join field (options.map fun option => (option.1, g option.2)) source (mapAllValues g fields)
  | .aggregate field options source =>
    .aggregate field (options.map fun option => (option.1, g option.2)) source
  | .constant field options value =>
    .constant field (options.map fun option => (option.1, g option.2)) (g value)

def mapAllValues (g : GenericValue → GenericValue) : List Field → List Field
  | [] => []
  | field :: fields => field.mapValues g :: mapAllValues g fields

end

mutual

/-- The options, defaults and constants of a field and of the fields below it. -/
def Field.values : Field → List GenericValue
  | .column _ options source => options.map Prod.snd ++ source.default.toList
  | .group _ options fields => options.map Prod.snd ++ allValues fields
  | .geo _ options _ | .aggregate _ options _ => options.map Prod.snd
  | .join _ options _ fields => options.map Prod.snd ++ allValues fields
  | .constant _ options value => options.map Prod.snd ++ [value]

def allValues : List Field → List GenericValue
  | [] => []
  | field :: fields => field.values ++ allValues fields

end

theorem map_options_eq_self_iff {g : GenericValue → GenericValue} {options : Options} :
    options.map (fun option => (option.1, g option.2)) = options ↔
      ∀ value ∈ options.map Prod.snd, g value = value := by
  induction options with
  | nil => simp
  | cons option options ih =>
    rw [List.map_cons, List.cons.injEq, ih]
    simp [Prod.ext_iff]

mutual

theorem Field.mapValues_eq_self_iff {g : GenericValue → GenericValue} : ∀ {f : Field},
    f.mapValues g = f ↔ ∀ value ∈ f.values, g value = value
  | .column field options source => by
    cases hdefault : source.default with
    | none =>
      have hsource : { source with default := none } = source := by rw [← hdefault]
      simp [Field.mapValues, Field.values, hdefault, hsource, map_options_eq_self_iff]
    | some d =>
      have hsource : { source with default := some (g d) } = source ↔ g d = d := by
        constructor
        · intro h
          have heq := congrArg Column.default h
          rw [hdefault] at heq
          exact Option.some.inj heq
        · intro h
          rw [h, ← hdefault]
      simp [Field.mapValues, Field.values, hdefault, hsource, map_options_eq_self_iff, or_imp, forall_and]
  | .group field options fields => by
    simp [Field.mapValues, Field.values, map_options_eq_self_iff, mapAllValues_eq_self_iff,
      or_imp, forall_and]
  | .geo field options source => by simp [Field.mapValues, Field.values, map_options_eq_self_iff]
  | .join field options source fields => by
    simp [Field.mapValues, Field.values, map_options_eq_self_iff, mapAllValues_eq_self_iff,
      or_imp, forall_and]
  | .aggregate field options source => by simp [Field.mapValues, Field.values, map_options_eq_self_iff]
  | .constant field options value => by
    simp [Field.mapValues, Field.values, map_options_eq_self_iff, or_imp, forall_and]

theorem mapAllValues_eq_self_iff {g : GenericValue → GenericValue} : ∀ {fields : List Field},
    mapAllValues g fields = fields ↔ ∀ value ∈ allValues fields, g value = value
  | [] => by simp [mapAllValues, allValues]
  | field :: fields => by
    simp [mapAllValues, allValues, Field.mapValues_eq_self_iff, mapAllValues_eq_self_iff, or_imp,
      forall_and]

end

namespace Codegen

open Entities (findTag classify keyOf bodyOf)

/-- The keys that stand beside a type tag. -/
def siblings : List String :=
  ["values", "postgres", "opensearch", "column", "required", "variants", "transforms", "default",
    "lat", "lon", "table", "primary_key", "foreign_key", "through", "filters", "order_by", "limit",
    "fields", "element_type", "value_type", "distinct", "value", "options"]

theorem classify_sibling {key : String} (h : key ∈ siblings) : classify key = none := by
  simp only [siblings, List.mem_cons, List.not_mem_nil, or_false] at h
  rcases h with rfl | rfl | rfl | rfl | rfl | rfl | rfl | rfl | rfl | rfl | rfl | rfl | rfl | rfl |
    rfl | rfl | rfl | rfl | rfl | rfl | rfl | rfl | rfl <;> rfl

theorem ne_field_of_sibling {key : String} (h : key ∈ siblings) : key ≠ "field" := by
  rintro rfl
  revert h
  decide

section Fields

variable {tag : String} {kind : Entities.TagKind} {name : Yaml} {rest : List (String × Yaml)}

theorem findTag_object (htag : classify tag = some kind) (hrest : ∀ f ∈ rest, f.1 ∈ siblings) :
    findTag (((tag, name) :: rest).map fun f => (.string f.1, f.2)) = .ok (tag, kind) := by
  have hkeys : (((tag, name) :: rest).map fun f => (Yaml.string f.1, f.2)).filterMap
      (fun entry => keyOf entry.1) = tag :: rest.map Prod.fst := by
    simp [List.filterMap_map, keyOf]
  have hnone : (rest.map Prod.fst).filterMap (fun key => (classify key).map (key, ·)) = [] := by
    rw [List.filterMap_eq_nil_iff]
    intro key hkey
    obtain ⟨f, hf, rfl⟩ := List.mem_map.mp hkey
    rw [classify_sibling (hrest f hf)]
    rfl
  rw [findTag, hkeys, List.filterMap_cons, htag, hnone]
  rfl

theorem bodyOf_object (htag : classify tag = some kind) (hrest : ∀ f ∈ rest, f.1 ∈ siblings) :
    bodyOf tag name (((tag, name) :: rest).map fun f => (.string f.1, f.2)) =
      object (rest ++ [("field", name)]) := by
  have hkept : (rest.map fun f => (Yaml.string f.1, f.2)).filter (fun entry =>
      keyOf entry.1 ≠ some tag && keyOf entry.1 ≠ some "field") =
      rest.map fun f => (Yaml.string f.1, f.2) := by
    rw [List.filter_eq_self]
    intro entry hentry
    obtain ⟨f, hf, rfl⟩ := List.mem_map.mp hentry
    have hne : f.1 ≠ tag := by
      intro heq
      have hnone := classify_sibling (hrest f hf)
      rw [heq, htag] at hnone
      cases hnone
    simp [keyOf, hne, ne_field_of_sibling (hrest f hf)]
  rw [bodyOf, List.map_cons, List.filter_cons_of_neg (by simp [keyOf]), hkept]
  simp [object]

theorem readNested_object (fields : List (String × Yaml)) :
    Entities.Field.readNested (fields.map fun f => (.string f.1, f.2)) =
      (Json.get fields "fields").elim (.error .shape) Entities.Field.readAll := by
  induction fields with
  | nil => rfl
  | cons f fields ih =>
    obtain ⟨key, value⟩ := f
    rw [List.map_cons, Json.get_cons]
    by_cases hkey : key = "fields"
    · subst hkey
      rfl
    · rw [if_neg hkey, ← ih, Entities.Field.readNested]
      rintro heq
      cases heq
      exact hkey rfl

/-- A field reads as its kind reads the body its tag was taken out of. -/
theorem read_object (htag : classify tag = some kind)
    (hrest : ∀ f ∈ rest, f.1 ∈ siblings) {e : Entities.Field}
    (h : Entities.Field.readKind kind (object (rest ++ [("field", name)]))
      ((Json.get rest "fields").elim (.error .shape) Entities.Field.readAll) = .ok e) :
    Entities.Field.read (object ((tag, name) :: rest)) = .ok e := by
  have hne : tag ≠ "fields" := by
    rintro rfl
    cases htag
  have hname : ((((tag, name) :: rest).map fun f => (Yaml.string f.1, f.2)).find? fun entry =>
      keyOf entry.1 = some tag) = some (.string tag, name) := by
    rw [List.map_cons, List.find?_cons_of_pos (by simp [keyOf])]
  change Entities.Field.ofEntries _ (Entities.Field.readNested _) = _
  rw [readNested_object, Json.get_cons, if_neg hne, Entities.Field.ofEntries,
    findTag_object htag hrest]
  simp only [bind, Except.bind]
  rw [hname, Option.elim_some, bodyOf_object htag hrest, h]
  rfl

end Fields

theorem get_typeSiblings {ty : FlussoType} {key : String}
    (h : key ∉ ["values", "postgres", "opensearch"]) : Json.get (typeSiblings ty) key = none := by
  simp only [List.mem_cons, List.not_mem_nil, or_false, not_or] at h
  obtain ⟨hvalues, hpostgres, hopensearch⟩ := h
  cases ty <;>
    simp [typeSiblings, Json.get_cons, Ne.symm hvalues, Ne.symm hpostgres, Ne.symm hopensearch]

theorem get_joinKey {kind : JoinKind} {key : String}
    (h : key ∉ ["column", "foreign_key", "through"]) : Json.get (joinKey kind).2 key = none := by
  simp only [List.mem_cons, List.not_mem_nil, or_false, not_or] at h
  obtain ⟨hcolumn, hforeign, hthrough⟩ := h
  cases kind <;>
    simp [joinKey, Json.get_cons, Ne.symm hcolumn, Ne.symm hforeign, Ne.symm hthrough]

theorem read_limit {fields : List (String × Yaml)} {limit : Option ℕ}
    (h : ∀ n, limit = some n → n < 2 ^ 64)
    (hget : Json.get fields "limit" =
      limit.map fun limit => .number (.posInt (UInt64.ofNat limit))) :
    ∃ l, Yaml.optional fields "limit" asU64 = some l ∧ l.map UInt64.toNat = limit := by
  rw [Yaml.optional_of_get hget]
  cases limit with
  | none => exact ⟨none, rfl, rfl⟩
  | some n => exact ⟨some (UInt64.ofNat n), rfl, congrArg some (UInt64.toNat_ofNat_of_lt' (h n rfl))⟩

/-- The op an aggregate is written under. -/
def aggregateVerb : AggregateOp → Entities.AggregateOp
  | .count => .count
  | .avg _ => .avg
  | .sum _ => .sum
  | .min _ => .min
  | .max _ => .max
  | .ids _ => .ids

theorem read_valueType {fields : List (String × Yaml)} {key : String} {ty : Option FlussoType}
    (hget : Json.get fields key = ty.map typeYaml) :
    Yaml.optional fields key Entities.readType = some ty := by
  rw [Yaml.optional_of_get hget]
  cases ty with
  | none => rfl
  | some ty =>
    have hread : asOption Entities.readType (typeYaml ty) =
        (Entities.readType (typeYaml ty)).map some := by cases ty <;> rfl
    rw [Option.map_some, Option.elim_some, hread, read_type]
    rfl

theorem requireAggregateType_some {ty : FlussoType} {op : String} (h : ty.IsAggregated) :
    Conversion.requireAggregateType (some ty) op = .ok ty := by
  cases ty <;> first | rfl | exact h.elim

theorem requireElementType_some {ty : FlussoType} (h : ty.IsAggregated) :
    Conversion.requireElementType (some ty) = .ok ty := by
  cases ty <;> first | rfl | exact h.elim

theorem read_aggregateOp {fields : List (String × Yaml)} {op : AggregateOp}
    {valueType : Option FlussoType} (h : op.Converted valueType)
    (hcolumn : Json.get fields "column" = Json.get (aggregateOp op).2 "column")
    (helement : Json.get fields "element_type" = Json.get (aggregateOp op).2 "element_type") :
    ∃ column elementType,
      Yaml.optional fields "column" Entities.readColumnName = some column ∧
      Yaml.optional fields "element_type" Entities.readType = some elementType ∧
      ∀ b : Entities.AggregateBody, b.column = column → b.elementType = elementType →
        b.valueType = valueType →
        Conversion.aggregateOp (aggregateVerb op) b = .ok (op, valueType) := by
  cases op with
  | count =>
    refine ⟨none, none, by rw [Yaml.optional_of_get hcolumn]; rfl,
      by rw [Yaml.optional_of_get helement]; rfl, ?_⟩
    rintro ⟨⟩ rfl rfl rfl
    cases h
    rfl
  | ids ty =>
    obtain ⟨helementType, hvalue⟩ := h
    refine ⟨none, some ty, by rw [Yaml.optional_of_get hcolumn]; rfl,
      @read_valueType fields "element_type" (some ty) helement, ?_⟩
    rintro ⟨⟩ rfl rfl rfl
    cases hvalue
    simp [Conversion.aggregateOp, aggregateVerb, Conversion.refuse, requireElementType_some
      helementType, bind, Except.bind, pure, Except.pure]
  | avg c =>
    obtain ⟨hc, hvalue⟩ := h
    refine ⟨some ⟨c, hc⟩, none, ?_, by rw [Yaml.optional_of_get helement]; rfl, ?_⟩
    · rw [Yaml.optional_of_get hcolumn]
      exact congrArg (Option.map some) (Entities.readColumnName_of_valid hc)
    · rintro ⟨⟩ rfl rfl rfl
      cases hvalue
      rfl
  | sum c | min c | max c =>
    obtain ⟨hc, ty, rfl, hty⟩ := h
    refine ⟨some ⟨c, hc⟩, none, ?_, by rw [Yaml.optional_of_get helement]; rfl, ?_⟩
    · rw [Yaml.optional_of_get hcolumn]
      exact congrArg (Option.map some) (Entities.readColumnName_of_valid hc)
    · rintro ⟨⟩ rfl rfl rfl
      simp [Conversion.aggregateOp, aggregateVerb, Conversion.refuse, Conversion.typedOp,
        Conversion.requireAggregateColumn, Conversion.orElse, requireAggregateType_some hty, bind,
        Except.bind, pure, Except.pure]

theorem get_aggregateOp {op : AggregateOp} {key : String} (h : key ∉ ["column", "element_type"]) :
    Json.get (aggregateOp op).2 key = none := by
  simp only [List.mem_cons, List.not_mem_nil, or_false, not_or] at h
  obtain ⟨hcolumn, helement⟩ := h
  cases op <;> simp [aggregateOp, Json.get_cons, Ne.symm hcolumn, Ne.symm helement]

theorem get_aggregateKey {k : AggregateKey} {key : String} (h : key ∉ ["foreign_key", "through"]) :
    Json.get (aggregateKey k) key = none := by
  simp only [List.mem_cons, List.not_mem_nil, or_false, not_or] at h
  obtain ⟨hforeign, hthrough⟩ := h
  cases k <;> simp [aggregateKey, Json.get_cons, Ne.symm hforeign, Ne.symm hthrough]

variable [Numerals] {name : FieldName} {options : Options}

/-- A field that was written is read and converts to what it was, its values rewritten. -/
def ReadsBack (f : Field) : Prop :=
  ∃ e, Entities.Field.read (fieldValue f) = .ok e ∧
    Conversion.field e = .ok (f.mapValues rewritten)

/-- What stands beside the type tag of a field, and the name under `field`. -/
def body (name : FieldName) (options : Options) (own : List (String × Yaml)) :
    List (String × Yaml) :=
  (own ++ field? "options" (if options = [] then none else some (optionsValue options))) ++
    [("field", .string name.name)]

theorem read_body {own : List (String × Yaml)} (hname : name.Valid)
    (hoptions : OptionsConverted options) (hfield : Json.get own "field" = none)
    (hown : Json.get own "options" = none) :
    mandatory (body name options own) "field" Entities.readFieldName = some ⟨name, hname⟩ ∧
      ∃ o, Entities.readFieldOptions (body name options own) = some o ∧
        Conversion.options o = rewrittenOptions options := by
  constructor
  · simp [body, mandatory, hfield, Json.get_cons, Entities.readFieldName_of_valid hname]
  · apply read_fieldOptions hoptions
    simp [body, hown, Json.get_cons]

/-- What the body of a written column is read as. -/
structure ColumnReads (fields : List (String × Yaml)) (name : FieldName) (hname : name.Valid)
    (options : Options) (c : Column) : Prop where
  field : mandatory fields "field" Entities.readFieldName = some ⟨name, hname⟩
  required : mandatory fields "required" asBool = some (!c.nullable)
  options : ∃ o, Entities.readFieldOptions fields = some o ∧
    Conversion.options o = rewrittenOptions options
  column : ∃ column, Yaml.optional fields "column" Entities.readColumnName = some column ∧
    Conversion.columnOr name column = .ok c.column
  variants : defaulted fields "variants" (asList asStr) [] = some c.enumOrder
  transforms : ∃ ts, Yaml.optional fields "transforms" (asList Entities.Transform.read) = some ts ∧
    ((ts.map fun ts => ts.map Conversion.transform).getD []) = c.transforms
  default : ∃ d, Yaml.optional fields "default" some = some d ∧
    Conversion.default d = .ok (c.default.map rewritten)

theorem columnReads {c : Column} (hname : name.Valid) (hoptions : OptionsConverted options)
    (hc : c.Converted options) :
    ColumnReads (body name options (columnField name.name c).2) name hname options c := by
  obtain ⟨hfield, hbody⟩ := @read_body _ name options (columnField name.name c).2 hname hoptions
    (by simp [columnField, get_typeSiblings, Json.get_cons])
    (by simp [columnField, get_typeSiblings, Json.get_cons])
  refine ⟨hfield, ?_, hbody, ?_, ?_, ?_, ?_⟩
  · simp [body, columnField, get_typeSiblings, mandatory, Json.get_cons, asBool]
  · apply read_column hc.column
    simp [body, columnField, get_typeSiblings, Json.get_cons]
  · have hget : Json.get (body name options (columnField name.name c).2) "variants" =
        if c.enumOrder = [] then none else some (.sequence (c.enumOrder.map .string)) := by
      simp [body, columnField, get_typeSiblings, Json.get_cons]
    rw [defaulted, hget]
    split_ifs with hnil
    · rw [hnil]
    · exact Yaml.asList_asStr c.enumOrder
  · apply read_transforms
    simp [body, columnField, get_typeSiblings, Json.get_cons]
  · apply read_default hc.default
    simp [body, columnField, get_typeSiblings, Json.get_cons]

theorem scalar_readsBack {c : Column} (hname : name.Valid) (hoptions : OptionsConverted options)
    (hc : c.Converted options) (htag : classify (scalarTag c.ty) = some (.scalar c.ty))
    (htype : typeSiblings c.ty = []) (horder : c.enumOrder = [])
    (hresolve : Conversion.resolveColumnType c.ty (rewrittenOptions options) =
      (c.ty, rewrittenOptions options)) :
    ReadsBack (.column name options c) := by
  have hreads := columnReads hname hoptions hc
  obtain ⟨o, ho, ho'⟩ := hreads.options
  obtain ⟨column, hcolumn, hcolumn'⟩ := hreads.column
  obtain ⟨ts, hts, hts'⟩ := hreads.transforms
  obtain ⟨d, hd, hd'⟩ := hreads.default
  have hrecord : asRecord ["field", "column", "required", "options", "transforms", "default"]
      (object (body name options (columnField name.name c).2)) =
        some (body name options (columnField name.name c).2) :=
    Yaml.asRecord_object (by
      simp +contextual [body, columnField, htype, horder, or_imp, forall_and])
  refine ⟨.scalar c.ty ⟨⟨name, hname⟩, column, !c.nullable, o, ts, d⟩, ?_, ?_⟩
  · apply read_object htag
    · simp +contextual [columnField, htype, siblings, or_imp, forall_and]
    · rw [← body]
      simp only [Entities.Field.readKind, Entities.ScalarBody.read, hrecord, hreads.field, hcolumn,
        hreads.required, ho, hts, hd, Entities.Field.orShape, Except.map, Option.pure_def,
        Option.bind_eq_bind, Option.bind_some, Option.elim_some]
  · simp only [Conversion.field, Conversion.scalarField, hcolumn', ho', hresolve, hts', hd', bind,
      Except.bind, pure, Except.pure, Bool.not_not]
    simp only [Field.mapValues, ← horder]
    rfl

theorem enum_readsBack {column : ColumnName} {nullable : Bool} {transforms : List Transform}
    {default : Option GenericValue} {enumOrder : List String} (hname : name.Valid)
    (hoptions : OptionsConverted options)
    (hc : Column.Converted options ⟨column, .enum, nullable, transforms, default, enumOrder⟩) :
    ReadsBack (.column name options ⟨column, .enum, nullable, transforms, default, enumOrder⟩) := by
  have hreads := columnReads hname hoptions hc
  generalize hfields : body name options (columnField name.name _).2 = fields at hreads
  obtain ⟨o, ho, ho'⟩ := hreads.options
  obtain ⟨c, hcolumn, hcolumn'⟩ := hreads.column
  obtain ⟨ts, hts, hts'⟩ := hreads.transforms
  obtain ⟨d, hd, hd'⟩ := hreads.default
  have hrecord : asRecord ["field", "variants", "column", "required", "options", "transforms",
      "default"] (object fields) = some fields :=
    Yaml.asRecord_object (by
      simp +contextual [← hfields, body, columnField, typeSiblings, or_imp, forall_and])
  obtain ⟨_, horder⟩ := hc.type
  refine ⟨.enum ⟨⟨name, hname⟩, enumOrder, c, !nullable, o, ts, d⟩, ?_, ?_⟩
  · refine @read_object "enum" .enum _ _ rfl ?_ _ ?_
    · simp +contextual [columnField, typeSiblings, siblings, or_imp, forall_and]
    · rw [← body, hfields]
      simp only [Entities.Field.readKind, Entities.EnumBody.read, hrecord, hreads.field,
        hreads.variants, hcolumn, hreads.required, ho, hts, hd, Entities.Field.orShape, Except.map,
        Option.pure_def, Option.bind_eq_bind, Option.bind_some, Option.elim_some]
  · change Conversion.validateEnumOrder [] enumOrder = _ at horder
    simp only [Conversion.field, Conversion.enumField, horder, hcolumn', ho', hts', hd', bind,
      Except.bind, pure, Except.pure, Bool.not_not]
    rfl

theorem orInsert_rewritten {key : String} {value : GenericValue}
    (h : (Json.get options key).isSome = true) :
    Conversion.orInsert key value (rewrittenOptions options) = rewrittenOptions options := by
  have hget : Json.get (rewrittenOptions options) key = (Json.get options key).map rewritten := by
    clear h
    induction options with
    | nil => rfl
    | cons option options ih =>
      rw [rewrittenOptions, List.map_cons, Json.get_cons, Json.get_cons, ← rewrittenOptions, ih]
      split <;> rfl
  rw [Conversion.orInsert, if_pos]
  rw [hget, Option.isSome_map]
  exact h

theorem map_readsBack {column : ColumnName} {values : FlussoType} {nullable : Bool}
    (hname : name.Valid) (hoptions : OptionsConverted options)
    (hc : Column.Converted options ⟨column, .map values, nullable, [], none, []⟩) :
    ReadsBack (.column name options ⟨column, .map values, nullable, [], none, []⟩) := by
  have hreads := columnReads hname hoptions hc
  generalize hfields : body name options (columnField name.name _).2 = fields at hreads
  obtain ⟨o, ho, ho'⟩ := hreads.options
  obtain ⟨c, hcolumn, hcolumn'⟩ := hreads.column
  have hrecord : asRecord ["field", "values", "column", "required", "options"] (object fields) =
      some fields :=
    Yaml.asRecord_object (by
      simp +contextual [← hfields, body, columnField, typeSiblings, or_imp, forall_and])
  have hvalues : mandatory fields "values" Entities.readType = some values := by
    simp [← hfields, body, columnField, typeSiblings, mandatory, Json.get_cons, read_type]
  obtain ⟨hleaf, hdynamic, -⟩ := hc.type
  have hrequire : Conversion.requireMapValueType values = .ok values := by
    change values.isMapValue = true at hleaf
    cases values <;> first | rfl | cases hleaf
  refine ⟨.map ⟨⟨name, hname⟩, values, c, !nullable, o⟩, ?_, ?_⟩
  · refine @read_object "map" .map _ _ rfl ?_ _ ?_
    · simp +contextual [columnField, typeSiblings, siblings, or_imp, forall_and]
    · rw [← body, hfields]
      simp only [Entities.Field.readKind, Entities.MapBody.read, hrecord, hreads.field, hvalues,
        hcolumn, hreads.required, ho, Entities.Field.orShape, Except.map, Option.pure_def,
        Option.bind_eq_bind, Option.bind_some, Option.elim_some]
  · simp only [Conversion.field, Conversion.mapField, hrequire, hcolumn', ho',
      orInsert_rewritten hdynamic, bind, Except.bind, pure, Except.pure, Bool.not_not]
    rfl

theorem custom_readsBack {column : ColumnName} {postgres : List String} {opensearch : String}
    {nullable : Bool} {default : Option GenericValue} (hname : name.Valid)
    (hoptions : OptionsConverted options)
    (hc : Column.Converted options
      ⟨column, .custom postgres opensearch, nullable, [], default, []⟩) :
    ReadsBack (.column name options
      ⟨column, .custom postgres opensearch, nullable, [], default, []⟩) := by
  have hreads := columnReads hname hoptions hc
  generalize hfields : body name options (columnField name.name _).2 = fields at hreads
  obtain ⟨o, ho, ho'⟩ := hreads.options
  obtain ⟨c, hcolumn, hcolumn'⟩ := hreads.column
  obtain ⟨d, hd, hd'⟩ := hreads.default
  have hrecord : asRecord ["field", "postgres", "opensearch", "column", "required", "options",
      "default"] (object fields) = some fields :=
    Yaml.asRecord_object (by
      simp +contextual [← hfields, body, columnField, typeSiblings, or_imp, forall_and])
  have hpostgres : mandatory fields "postgres" (asList asStr) = some postgres := by
    simp [← hfields, body, columnField, typeSiblings, mandatory, Json.get_cons, Yaml.asList_asStr]
  have hopensearch : mandatory fields "opensearch" asStr = some opensearch := by
    simp [← hfields, body, columnField, typeSiblings, mandatory, Json.get_cons, asStr]
  have hresolve : Conversion.resolveColumnType (.custom postgres opensearch)
      (rewrittenOptions options) = (.custom postgres opensearch, rewrittenOptions options) :=
    if_neg (by simp)
  refine ⟨.scalar (.custom postgres opensearch) ⟨⟨name, hname⟩, c, !nullable, o, none, d⟩, ?_, ?_⟩
  · refine @read_object "custom" .custom _ _ rfl ?_ _ ?_
    · simp +contextual [columnField, typeSiblings, siblings, or_imp, forall_and]
    · rw [← body, hfields]
      simp only [Entities.Field.readKind, Entities.CustomBody.read, hrecord, hreads.field,
        hpostgres, hopensearch, hcolumn, hreads.required, ho, hd, Entities.Field.orShape,
        Except.map, Option.pure_def, Option.bind_eq_bind, Option.bind_some, Option.elim_some]
  · simp only [Conversion.field, Conversion.scalarField, hresolve, hcolumn', ho', hd', bind,
      Except.bind, pure, Except.pure, Bool.not_not]
    rfl

theorem point_readsBack {column : ColumnName} {nullable : Bool} (hname : name.Valid)
    (hoptions : OptionsConverted options)
    (hc : Column.Converted options ⟨column, .geoPoint, nullable, [], none, []⟩) :
    ReadsBack (.column name options ⟨column, .geoPoint, nullable, [], none, []⟩) := by
  have hreads := columnReads hname hoptions hc
  generalize hfields : body name options (columnField name.name _).2 = fields at hreads
  obtain ⟨o, ho, ho'⟩ := hreads.options
  obtain ⟨c, hcolumn, hcolumn'⟩ := hreads.column
  have hrecord : asRecord ["field", "lat", "lon", "column", "required", "options"] (object fields) =
      some fields :=
    Yaml.asRecord_object (by
      simp +contextual [← hfields, body, columnField, typeSiblings, or_imp, forall_and])
  have hlat : Yaml.optional fields "lat" Entities.readColumnName = some none := by
    simp [← hfields, body, columnField, typeSiblings, Yaml.optional, defaulted, Json.get_cons]
  have hlon : Yaml.optional fields "lon" Entities.readColumnName = some none := by
    simp [← hfields, body, columnField, typeSiblings, Yaml.optional, defaulted, Json.get_cons]
  refine ⟨.geo ⟨⟨name, hname⟩, none, none, c, !nullable, o⟩, ?_, ?_⟩
  · refine @read_object "geo" .geo _ _ rfl ?_ _ ?_
    · simp +contextual [columnField, typeSiblings, siblings, or_imp, forall_and]
    · rw [← body, hfields]
      simp only [Entities.Field.readKind, Entities.GeoBody.read, hrecord, hreads.field, hlat, hlon,
        hcolumn, hreads.required, ho, Entities.Field.orShape, Except.map, Option.pure_def,
        Option.bind_eq_bind, Option.bind_some, Option.elim_some]
  · simp only [Conversion.field, Conversion.geoField, hcolumn', ho', bind, Except.bind, pure,
      Except.pure, Bool.not_not]
    rfl

theorem column_readsBack {c : Column} (hname : name.Valid) (hoptions : OptionsConverted options)
    (hc : c.Converted options) : ReadsBack (.column name options c) := by
  obtain ⟨column, ty, nullable, transforms, default, enumOrder⟩ := c
  have htype := hc.type
  cases ty with
  | enum => exact enum_readsBack hname hoptions hc
  | map values =>
    obtain ⟨-, -, htransforms, hdefault, horder⟩ := htype
    simp only at htransforms hdefault horder
    subst htransforms hdefault horder
    exact map_readsBack hname hoptions hc
  | custom postgres opensearch =>
    obtain ⟨htransforms, horder⟩ := htype
    simp only at htransforms horder
    subst htransforms horder
    exact custom_readsBack hname hoptions hc
  | geoPoint =>
    obtain ⟨htransforms, hdefault, horder⟩ := htype
    simp only at htransforms hdefault horder
    subst htransforms hdefault horder
    exact point_readsBack hname hoptions hc
  | identifier =>
    exact scalar_readsBack hname hoptions hc rfl rfl htype.2
      (congrArg (Prod.mk _) (orInsert_rewritten htype.1))
  | _ => exact scalar_readsBack hname hoptions hc rfl rfl htype rfl

theorem geo_readsBack {source : Geo} (hname : name.Valid) (hoptions : OptionsConverted options)
    (hlat : source.lat.Valid) (hlon : source.lon.Valid) :
    ReadsBack (.geo name options source) := by
  obtain ⟨hfield, o, ho, ho'⟩ := @read_body _ name options (geoField source).2 hname hoptions
    (by simp [geoField, Json.get_cons]) (by simp [geoField, Json.get_cons])
  generalize hfields : body name options (geoField source).2 = fields at hfield ho
  have hrecord : asRecord ["field", "lat", "lon", "column", "required", "options"] (object fields) =
      some fields :=
    Yaml.asRecord_object (by simp +contextual [← hfields, body, geoField, or_imp])
  have hlat' : Yaml.optional fields "lat" Entities.readColumnName = some (some ⟨source.lat, hlat⟩) := by
    simp [← hfields, body, geoField, Yaml.optional, defaulted, Json.get_cons, asOption,
      Entities.readColumnName_of_valid hlat]
  have hlon' : Yaml.optional fields "lon" Entities.readColumnName = some (some ⟨source.lon, hlon⟩) := by
    simp [← hfields, body, geoField, Yaml.optional, defaulted, Json.get_cons, asOption,
      Entities.readColumnName_of_valid hlon]
  have hcolumn : Yaml.optional fields "column" Entities.readColumnName = some none := by
    simp [← hfields, body, geoField, Yaml.optional, defaulted, Json.get_cons]
  have hrequired : mandatory fields "required" asBool = some (!source.nullable) := by
    simp [← hfields, body, geoField, mandatory, Json.get_cons, asBool]
  refine ⟨.geo ⟨⟨name, hname⟩, some ⟨source.lat, hlat⟩, some ⟨source.lon, hlon⟩, none,
    !source.nullable, o⟩, ?_, ?_⟩
  · refine @read_object "geo" .geo _ _ rfl ?_ _ ?_
    · simp +contextual [geoField, siblings, or_imp]
    · rw [← body, hfields]
      simp only [Entities.Field.readKind, Entities.GeoBody.read, hrecord, hfield, hlat', hlon',
        hcolumn, hrequired, ho, Entities.Field.orShape, Except.map, Option.pure_def,
        Option.bind_eq_bind, Option.bind_some, Option.elim_some]
  · simp only [Conversion.field, Conversion.geoField, ho', pure, Except.pure, Bool.not_not]
    rfl

theorem constant_readsBack {value : GenericValue} (hname : name.Valid) :
    ReadsBack (.constant name [] value) := by
  obtain ⟨fields, hfields⟩ : ∃ fields, fields = body name [] [("value", value.toYaml)] := ⟨_, rfl⟩
  have hrecord : asRecord ["field", "value"] (object fields) = some fields :=
    Yaml.asRecord_object (by simp +contextual [hfields, body, or_imp])
  have hfield : mandatory fields "field" Entities.readFieldName = some ⟨name, hname⟩ := by
    simp [hfields, body, mandatory, Json.get_cons, Entities.readFieldName_of_valid hname]
  have hvalue : mandatory fields "value" some = some value.toYaml := by
    simp [hfields, body, mandatory, Json.get_cons]
  refine ⟨.constant ⟨⟨name, hname⟩, value.toYaml⟩, ?_, rfl⟩
  refine @read_object "constant" .constant _ _ rfl ?_ _ ?_
  · simp [siblings]
  · rw [← body, ← hfields]
    simp only [Entities.Field.readKind, Entities.ConstantBody.read, hrecord, hfield, hvalue,
      Entities.Field.orShape, Except.map, Option.pure_def, Option.bind_eq_bind, Option.bind_some,
      Option.elim_some]

theorem group_readsBack {fields : List Field} {es : List Entities.Field} (hname : name.Valid)
    (hoptions : OptionsConverted options)
    (hread : Entities.Field.readItems (fieldValues fields) = .ok es)
    (hconverted : Conversion.fieldsOf es = .ok (mapAllValues rewritten fields)) :
    ReadsBack (.group name options fields) := by
  obtain ⟨hfield, o, ho, ho'⟩ := @read_body _ name options
    [("fields", .sequence (fieldValues fields))] hname hoptions (by simp [Json.get_cons])
    (by simp [Json.get_cons])
  generalize hown : body name options [("fields", .sequence (fieldValues fields))] = own
    at hfield ho
  have hrecord : asRecord ["field", "options", "fields"] (object own) = some own :=
    Yaml.asRecord_object (by simp +contextual [← hown, body, or_imp])
  refine ⟨.object ⟨⟨name, hname⟩, o⟩ es, ?_, ?_⟩
  · refine @read_object "object" .object _ _ rfl ?_ _ ?_
    · simp +contextual [siblings, or_imp]
    · rw [← body, hown, Yaml.get_append, Json.get_cons]
      simp only [Entities.Field.readKind, Entities.ObjectBody.read, hrecord, hfield, ho, hread,
        Entities.Field.orShape, Entities.Field.readAll, bind, Except.bind, pure, Except.pure,
        Option.bind_some, Option.elim_some, Yaml.get_field?, String.reduceEq, if_true, if_false,
        Option.or_none]
  · simp only [Conversion.field, hconverted, ho', bind, Except.bind]
    rfl

/-- The verb a kind of join is written under. -/
def joinVerb : JoinKind → Entities.JoinVerb
  | .belongsTo _ => .belongsTo
  | .hasOne _ => .hasOne
  | .hasMany _ => .hasMany
  | .manyToMany _ => .manyToMany

theorem read_joinKey {fields : List (String × Yaml)} {kind : JoinKind} (h : kind.Converted)
    (hcolumn : Json.get fields "column" = Json.get (joinKey kind).2 "column")
    (hforeign : Json.get fields "foreign_key" = Json.get (joinKey kind).2 "foreign_key")
    (hthrough : Json.get fields "through" = Json.get (joinKey kind).2 "through") :
    ∃ column foreignKey t,
      Yaml.optional fields "column" Entities.readColumnName = some column ∧
      Yaml.optional fields "foreign_key" Entities.readColumnName = some foreignKey ∧
      Yaml.optional fields "through" Entities.Through.read = some t ∧
      ∀ b : Entities.JoinBody, b.column = column → b.foreignKey = foreignKey → b.through = t →
        Conversion.joinKind (joinVerb kind) b = .ok kind := by
  rw [Yaml.optional_of_get hcolumn, Yaml.optional_of_get hforeign, Yaml.optional_of_get hthrough]
  cases kind with
  | belongsTo c =>
    refine ⟨some ⟨c, h⟩, none, none, ?_, rfl, rfl, ?_⟩
    · exact congrArg (Option.map some) (Entities.readColumnName_of_valid h)
    · rintro ⟨⟩ rfl rfl rfl
      rfl
  | hasOne c =>
    refine ⟨none, some ⟨c, h⟩, none, rfl, ?_, rfl, ?_⟩
    · exact congrArg (Option.map some) (Entities.readColumnName_of_valid h)
    · rintro ⟨⟩ rfl rfl rfl
      rfl
  | hasMany c =>
    refine ⟨none, some ⟨c, h⟩, none, rfl, ?_, rfl, ?_⟩
    · exact congrArg (Option.map some) (Entities.readColumnName_of_valid h)
    · rintro ⟨⟩ rfl rfl rfl
      rfl
  | manyToMany t =>
    obtain ⟨e, he, hconverted⟩ := read_through h
    refine ⟨none, none, some e, rfl, rfl, ?_, ?_⟩
    · exact congrArg (Option.map some) he
    · rintro ⟨⟩ rfl rfl rfl
      change (Conversion.through e >>= fun t => pure (JoinKind.manyToMany t)) = _
      rw [hconverted]
      rfl

theorem joinShape_joinVerb {source : Join} (h : source.Converted) {b : Entities.JoinBody}
    (hkind : Conversion.joinKind (joinVerb source.kind) b = .ok source.kind)
    (hrequired : b.required = if source.kind.isToMany then none else some (!source.nullable))
    (horderBy : b.orderBy.isSome = source.orderBy.isSome)
    (hlimit : b.limit.isSome = source.limit.isSome) :
    Conversion.joinShape (joinVerb source.kind) b = .ok (source.kind, source.nullable) := by
  have hordered : (decide (joinVerb source.kind = .belongsTo) && b.orderBy.isSome) = false := by
    rw [horderBy]
    cases hsome : source.orderBy.isSome with
    | false => simp
    | true =>
      have hne := h.ordered hsome
      cases hverb : source.kind with
      | belongsTo column => exact absurd hverb (hne column)
      | _ => rfl
  have hlimited : ((decide (joinVerb source.kind = .belongsTo) ||
      decide (joinVerb source.kind = .hasOne)) && b.limit.isSome) = false := by
    rw [hlimit]
    cases hsome : source.limit.isSome with
    | false => simp
    | true =>
      have hmany := h.limited hsome
      cases hverb : source.kind with
      | belongsTo column | hasOne column =>
        rw [hverb] at hmany
        cases hmany
      | _ => rfl
  have hnullable : Conversion.joinNullable (joinVerb source.kind) source.kind b.required =
      .ok source.nullable := by
    rw [Conversion.joinNullable, hrequired]
    split_ifs with hmany
    · rw [h.nullable hmany]
      rfl
    · simp [pure, Except.pure]
  simp only [Conversion.joinShape, hkind, hordered, hlimited, hnullable, Conversion.refuse, bind,
    Except.bind]
  rfl

theorem join_readsBack {source : Join} {fields : List Field} {es : List Entities.Field}
    (hname : name.Valid) (hoptions : OptionsConverted options) (hsource : source.Converted)
    (hread : Entities.Field.readItems (fieldValues fields) = .ok es)
    (hconverted : Conversion.fieldsOf es = .ok (mapAllValues rewritten fields)) :
    ReadsBack (.join name options source fields) := by
  obtain ⟨hfield, o, ho, ho'⟩ := @read_body _ name options
    (joinField source (.sequence (fieldValues fields))).2 hname hoptions
    (by simp [joinField, Json.get_cons, get_joinKey])
    (by simp [joinField, Json.get_cons, get_joinKey])
  generalize hown : body name options (joinField source (.sequence (fieldValues fields))).2 = own
    at hfield ho
  have hrecord : asRecord ["field", "table", "primary_key", "required", "column", "foreign_key",
      "through", "filters", "order_by", "limit", "fields", "options"] (object own) = some own := by
    apply Yaml.asRecord_object
    cases hkind : source.kind <;>
      simp +contextual [← hown, body, joinField, joinKey, hkind, or_imp, forall_and]
  have htable : mandatory own "table" Entities.readTableName = some ⟨source.table, hsource.table⟩ := by
    simp [← hown, body, joinField, mandatory, Json.get_cons,
      Entities.readTableName_of_valid hsource.table]
  have hprimaryKey : mandatory own "primary_key" Entities.readColumnName =
      some ⟨source.primaryKey, hsource.primaryKey⟩ := by
    simp [← hown, body, joinField, mandatory, Json.get_cons,
      Entities.readColumnName_of_valid hsource.primaryKey]
  have hrequired : Yaml.optional own "required" asBool =
      some (if source.kind.isToMany then none else some (!source.nullable)) := by
    cases hmany : source.kind.isToMany <;>
      simp [← hown, body, joinField, Yaml.optional, defaulted, Json.get_cons, get_joinKey, hmany,
        asOption, asBool]
  obtain ⟨column, foreignKey, t, hcolumn, hforeign, hthrough, hkind⟩ :=
    @read_joinKey _ own _ hsource.kind
      (by simp [← hown, body, joinField, Json.get_cons])
      (by simp [← hown, body, joinField, Json.get_cons])
      (by simp [← hown, body, joinField, Json.get_cons])
  obtain ⟨filters, hfilters, hfilters'⟩ := @read_filters _ own "filters" _ hsource.filters
    (by simp [← hown, body, joinField, Json.get_cons, get_joinKey])
  obtain ⟨orderBy, horderBy, horderBy'⟩ := @read_orderByValue own _ hsource.orderBy
    (by simp [← hown, body, joinField, Json.get_cons, get_joinKey])
  obtain ⟨limit, hlimit, hlimit'⟩ := @read_limit own _ hsource.limit
    (by simp [← hown, body, joinField, Json.get_cons, get_joinKey])
  have hfields : Json.get (joinField source (.sequence (fieldValues fields))).2 "fields" =
      some (.sequence (fieldValues fields)) := by
    simp [joinField, Json.get_cons, get_joinKey]
  obtain ⟨b, hb⟩ : ∃ b : Entities.JoinBody, b = ⟨⟨name, hname⟩, ⟨source.table, hsource.table⟩,
    ⟨source.primaryKey, hsource.primaryKey⟩,
    if source.kind.isToMany then none else some (!source.nullable), column, foreignKey, t, filters,
    orderBy, limit, o⟩ := ⟨_, rfl⟩
  have hshape : Conversion.joinShape (joinVerb source.kind) b = .ok (source.kind, source.nullable) := by
    apply joinShape_joinVerb hsource
    · exact hkind b (by rw [hb]) (by rw [hb]) (by rw [hb])
    · rw [hb]
    · rw [hb, ← horderBy', Option.isSome_map]
    · rw [hb, ← hlimit', Option.isSome_map]
  refine ⟨.join (joinVerb source.kind) b es, ?_, ?_⟩
  · refine @read_object (joinField source (.sequence (fieldValues fields))).1
      (.join (joinVerb source.kind)) _ _ ?_ ?_ _ ?_
    · cases hkind : source.kind <;> simp [joinField, joinKey, hkind, joinVerb] <;> rfl
    · cases hkind : source.kind <;>
        simp +contextual [joinField, joinKey, hkind, siblings, or_imp, forall_and]
    · rw [← body, hown, Yaml.get_append, hfields]
      simp only [Entities.Field.readKind, Entities.JoinBody.read, hrecord, hfield, htable,
        hprimaryKey, hrequired, hcolumn, hforeign, hthrough, hfilters, horderBy, hlimit, ho, hread,
        hb, Entities.Field.orShape, Entities.Field.readAll, bind, Except.bind, pure, Except.pure,
        Option.bind_some, Option.elim_some, Yaml.get_field?, String.reduceEq, if_false,
        Option.or_none]
  · rw [Conversion.field, hshape]
    simp only [hconverted, hb, ho', hfilters', horderBy', hlimit', bind, Except.bind]
    rfl

theorem read_aggregateKey {fields : List (String × Yaml)} {key : AggregateKey} (h : key.Converted)
    (hforeign : Json.get fields "foreign_key" = Json.get (aggregateKey key) "foreign_key")
    (hthrough : Json.get fields "through" = Json.get (aggregateKey key) "through") :
    ∃ foreignKey t,
      Yaml.optional fields "foreign_key" Entities.readColumnName = some foreignKey ∧
      Yaml.optional fields "through" Entities.Through.read = some t ∧
      Conversion.aggregateKey foreignKey t = .ok key := by
  rw [Yaml.optional_of_get hforeign, Yaml.optional_of_get hthrough]
  cases key with
  | direct c =>
    exact ⟨some ⟨c, h⟩, none,
      congrArg (Option.map some) (Entities.readColumnName_of_valid h), rfl, rfl⟩
  | through t =>
    obtain ⟨e, he, hconverted⟩ := read_through h
    refine ⟨none, some e, rfl, congrArg (Option.map some) he, ?_⟩
    rw [Conversion.aggregateKey, hconverted]
    rfl

theorem aggregate_readsBack {source : Aggregate} (hname : name.Valid)
    (hoptions : OptionsConverted options) (hsource : source.Converted) :
    ReadsBack (.aggregate name options source) := by
  obtain ⟨hfield, o, ho, ho'⟩ := @read_body _ name options (aggregateField source).2 hname hoptions
    (by simp [aggregateField, Json.get_cons, get_aggregateOp, get_aggregateKey])
    (by simp [aggregateField, Json.get_cons, get_aggregateOp, get_aggregateKey])
  generalize hown : body name options (aggregateField source).2 = own at hfield ho
  have hrecord : asRecord ["field", "table", "column", "value_type", "element_type", "foreign_key",
      "through", "distinct", "filters", "options"] (object own) = some own := by
    apply Yaml.asRecord_object
    cases hop : source.op <;> cases hkey : source.key <;>
      simp +contextual [← hown, body, aggregateField, aggregateOp, aggregateKey, hop, hkey, or_imp,
        forall_and]
  have htable : mandatory own "table" Entities.readTableName = some ⟨source.table, hsource.table⟩ := by
    simp [← hown, body, aggregateField, mandatory, Json.get_cons,
      Entities.readTableName_of_valid hsource.table]
  have hdistinct : defaulted own "distinct" asBool false = some source.distinct := by
    cases htrue : source.distinct <;>
      simp [← hown, body, aggregateField, defaulted, Json.get_cons, get_aggregateOp,
        get_aggregateKey, htrue, asBool]
  have hvalueType : Yaml.optional own "value_type" Entities.readType = some source.valueType := by
    apply read_valueType
    simp [← hown, body, aggregateField, Json.get_cons, get_aggregateOp, get_aggregateKey]
  obtain ⟨column, elementType, hcolumn, helement, hop⟩ := @read_aggregateOp own _ _ hsource.op
    (by simp [← hown, body, aggregateField, Json.get_cons, get_aggregateKey])
    (by simp [← hown, body, aggregateField, Json.get_cons, get_aggregateKey])
  obtain ⟨foreignKey, t, hforeign, hthrough, hkey⟩ := @read_aggregateKey _ own _ hsource.key
    (by simp [← hown, body, aggregateField, Json.get_cons, get_aggregateOp])
    (by simp [← hown, body, aggregateField, Json.get_cons, get_aggregateOp])
  obtain ⟨filters, hfilters, hfilters'⟩ := @read_filters _ own "filters" _ hsource.filters
    (by simp [← hown, body, aggregateField, Json.get_cons, get_aggregateOp, get_aggregateKey])
  obtain ⟨b, hb⟩ : ∃ b : Entities.AggregateBody, b = ⟨⟨name, hname⟩,
    ⟨source.table, hsource.table⟩, column, source.valueType, elementType, foreignKey, t,
    source.distinct, filters, o⟩ := ⟨_, rfl⟩
  have haggregate : Conversion.aggregate (aggregateVerb source.op) b = .ok source := by
    rw [Conversion.aggregate, hop b (by rw [hb]) (by rw [hb]) (by rw [hb])]
    simp only [hb, hkey, hfilters', Conversion.refuse, bind, Except.bind]
    split_ifs with hwrong
    · exfalso
      cases hdirect : source.key with
      | direct c =>
        rw [hdirect, Bool.and_true] at hwrong
        exact hsource.distinct hwrong c hdirect
      | through t =>
        rw [hdirect, Bool.and_false] at hwrong
        cases hwrong
    · rfl
  refine ⟨.aggregate (aggregateVerb source.op) b, ?_, ?_⟩
  · refine @read_object (aggregateField source).1 (.aggregate (aggregateVerb source.op)) _ _ ?_ ?_ _ ?_
    · cases hop : source.op <;> simp [aggregateField, aggregateOp, hop, aggregateVerb] <;> rfl
    · cases hop : source.op <;> cases hkey : source.key <;>
        simp +contextual [aggregateField, aggregateOp, aggregateKey, hop, hkey, siblings, or_imp,
          forall_and]
    · rw [← body, hown]
      simp only [Entities.Field.readKind, Entities.AggregateBody.read, hrecord, hfield, htable,
        hcolumn, hvalueType, helement, hforeign, hthrough, hdistinct, hfilters, ho, hb,
        Entities.Field.orShape, Except.map, Option.pure_def, Option.bind_eq_bind, Option.bind_some,
        Option.elim_some]
  · rw [Conversion.field, haggregate]
    simp only [hb, ho', bind, Except.bind]
    rfl

mutual

/-- A field converted from YAML reads back. -/
theorem field_readsBack : ∀ {f : Field}, f.Converted → ReadsBack f
  | .column _ _ _, h => column_readsBack h.1 h.2.1 h.2.2
  | .geo _ _ _, h => geo_readsBack h.1 h.2.1 h.2.2.1 h.2.2.2
  | .aggregate _ _ _, h => aggregate_readsBack h.1 h.2.1 h.2.2
  | .constant _ _ _, h => by
    obtain ⟨hname, rfl, -⟩ := h
    exact constant_readsBack hname
  | .group _ _ fields, h => by
    obtain ⟨es, hread, hconverted⟩ := fields_readBack h.2.2
    exact group_readsBack h.1 h.2.1 hread hconverted
  | .join _ _ _ fields, h => by
    obtain ⟨es, hread, hconverted⟩ := fields_readBack h.2.2.2
    exact join_readsBack h.1 h.2.1 h.2.2.1 hread hconverted

theorem fields_readBack : ∀ {fields : List Field}, AllConverted fields →
    ∃ es, Entities.Field.readItems (fieldValues fields) = .ok es ∧
      Conversion.fieldsOf es = .ok (mapAllValues rewritten fields)
  | [], _ => ⟨[], rfl, rfl⟩
  | f :: fields, h => by
    obtain ⟨e, hread, hconverted⟩ := field_readsBack h.1
    obtain ⟨es, hreads, hall⟩ := fields_readBack h.2
    refine ⟨e :: es, ?_, ?_⟩
    · rw [fieldValues, Entities.Field.readItems, hread, hreads]
      rfl
    · rw [Conversion.fieldsOf, hconverted, hall]
      rfl

end

end Codegen

end Flusso
