import Flusso.Config.Conversion
import Flusso.Foundation.Attempts

/-! # What conversion yields

Names are kept as they are, operands fit their ops, and each kind of field has
only what its form can say.
-/

namespace Flusso

open Attempts (bind_ok mem_of_mapM)

theorem mapM_of_forall₂ {ε α β : Type} {convert : β → Except ε α} {bs : List β} {as : List α}
    (h : List.Forall₂ (fun b a => convert b = .ok a) bs as) : bs.mapM convert = .ok as := by
  induction h with
  | nil => rfl
  | cons hb _ ih =>
    rw [List.mapM_cons, hb, ih]
    rfl

theorem map_of_forall₂ {α β : Type} {f : β → α} {bs : List β} {as : List α}
    (h : List.Forall₂ (fun b a => f b = a) bs as) : bs.map f = as := by
  induction h with
  | nil => rfl
  | cons hb _ ih => rw [List.map_cons, hb, ih]

def Filter.Converted : Filter → Prop
  | .raw sql => rawFilterValue sql = some sql
  | .nullCheck column _ => column.Valid
  | .valueOp column op value => column.Valid ∧
    match value with
    | .list _ => op = .isIn ∨ op = .notIn
    | .range _ _ => op = .between
    | .single _ => op ≠ .isIn ∧ op ≠ .notIn ∧ op ≠ .between

def FiltersConverted (filters : Option (List Filter)) : Prop :=
  ∀ fs, filters = some fs → ∀ f ∈ fs, f.Converted

structure Through.Converted (through : Through) : Prop where
  table : through.table.Valid
  leftKey : through.leftKey.Valid
  rightKey : through.rightKey.Valid
  filters : FiltersConverted through.filters

def SoftDelete.Converted : SoftDelete → Prop
  | .field name filters => name.Valid ∧ FiltersConverted filters
  | .column name filters => name.Valid ∧ FiltersConverted filters

structure OptionsConverted (options : Options) : Prop where
  sorted : Json.Sorted options
  fromYaml : ∀ option ∈ options, option.2.FromYaml

/-- A value that can stand in for a column's. -/
def GenericValue.IsDefault (value : GenericValue) : Prop :=
  match value with
  | .array _ | .map _ | .bytes _ => False
  | _ => True

/-- What a column of a type may have beside its name. -/
def Column.TypeConverted (options : Options) (c : Column) : Prop :=
  match c.ty with
  | .enum => ∃ u, Conversion.validateEnumOrder [] c.enumOrder = .ok u
  | .map values => values.isMapValue = true ∧ (Json.get options "dynamic").isSome = true ∧
      c.transforms = [] ∧ c.default = none ∧ c.enumOrder = []
  | .custom _ _ => c.transforms = [] ∧ c.enumOrder = []
  | .geoPoint => c.transforms = [] ∧ c.default = none ∧ c.enumOrder = []
  | .identifier => (Json.get options "analyzer").isSome = true ∧ c.enumOrder = []
  | _ => c.enumOrder = []

structure Column.Converted (options : Options) (c : Column) : Prop where
  column : c.column.Valid
  default : ∀ value, c.default = some value → value.FromYaml ∧ value.IsDefault
  type : c.TypeConverted options

def JoinKind.Converted : JoinKind → Prop
  | .belongsTo column => column.Valid
  | .hasOne foreignKey | .hasMany foreignKey => foreignKey.Valid
  | .manyToMany through => through.Converted

structure Join.Converted (join : Join) : Prop where
  table : join.table.Valid
  kind : join.kind.Converted
  primaryKey : join.primaryKey.Valid
  nullable : join.kind.isToMany = true → join.nullable = false
  filters : FiltersConverted join.filters
  orderBy : ∀ os, join.orderBy = some os → ∀ o ∈ os, o.column.Valid
  ordered : join.orderBy.isSome = true → ∀ column, join.kind ≠ .belongsTo column
  limit : ∀ n, join.limit = some n → n < 2 ^ 64
  limited : join.limit.isSome = true → join.kind.isToMany = true

/-- A type that can be what an aggregate yields. -/
def FlussoType.IsAggregated : FlussoType → Prop
  | .geoPoint | .custom _ _ => False
  | _ => True

def AggregateOp.Converted (valueType : Option FlussoType) : AggregateOp → Prop
  | .count => valueType = none
  | .avg column => column.Valid ∧ valueType = none
  | .sum column | .min column | .max column =>
    column.Valid ∧ ∃ ty, valueType = some ty ∧ ty.IsAggregated
  | .ids elementType => elementType.IsAggregated ∧ valueType = none

def AggregateKey.Converted : AggregateKey → Prop
  | .direct foreignKey => foreignKey.Valid
  | .through t => t.Converted

structure Aggregate.Converted (agg : Aggregate) : Prop where
  table : agg.table.Valid
  op : agg.op.Converted agg.valueType
  key : agg.key.Converted
  filters : FiltersConverted agg.filters
  distinct : agg.distinct = true → ∀ foreignKey, agg.key ≠ .direct foreignKey

mutual

def Field.Converted : Field → Prop
  | .column field options source => field.Valid ∧ OptionsConverted options ∧ source.Converted options
  | .group field options fields => field.Valid ∧ OptionsConverted options ∧ AllConverted fields
  | .geo field options source =>
    field.Valid ∧ OptionsConverted options ∧ source.lat.Valid ∧ source.lon.Valid
  | .join field options source fields =>
    field.Valid ∧ OptionsConverted options ∧ source.Converted ∧ AllConverted fields
  | .aggregate field options source => field.Valid ∧ OptionsConverted options ∧ source.Converted
  | .constant field options value => field.Valid ∧ options = [] ∧ value.FromYaml

def AllConverted : List Field → Prop
  | [] => True
  | field :: fields => field.Converted ∧ AllConverted fields

end

structure IndexSchema.Converted (schema : IndexSchema) : Prop where
  version : schema.version ∈ Entities.supportedVersions
  table : schema.table.Valid
  dbSchema : schema.dbSchema.Valid
  primaryKey : ∀ pk, schema.primaryKey = some pk → pk.Valid
  docId : schema.docId = none
  softDelete : ∀ softDelete, schema.softDelete = some softDelete → softDelete.Converted
  filters : FiltersConverted schema.filters
  fields : AllConverted schema.fields

namespace Conversion

theorem refuse_ok {wrong : Bool} {error : ConversionError} {u : Unit} :
    refuse wrong error = .ok u ↔ wrong = false := by
  cases wrong <;> simp [refuse, pure, Except.pure]

theorem orElse_ok {α : Type} {error : ConversionError} {value : Option α} {a : α} :
    orElse error value = .ok a ↔ value = some a := by
  cases value <;> simp [orElse]

theorem converted_orInsert {key : String} {value : GenericValue} {options : Options}
    (hoptions : OptionsConverted options) (hvalue : value.FromYaml) :
    OptionsConverted (orInsert key value options) := by
  unfold orInsert
  split
  · exact hoptions
  · refine ⟨hoptions.sorted.insert, ?_⟩
    intro option hoption
    rcases Json.exists_of_mem_insert hoption with rfl | hoption
    · exact hvalue
    · exact hoptions.fromYaml option hoption

theorem isSome_orInsert {key : String} {value : GenericValue} {options : Options} :
    (Json.get (orInsert key value options) key).isSome = true := by
  unfold orInsert
  split
  · assumption
  · simp [Json.get_insert]

theorem isMapValue_of_require {ty values : FlussoType} (h : requireMapValueType ty = .ok values) :
    values.isMapValue = true := by
  cases ty <;> cases h <;> rfl

theorem converted_columnOr {name : FieldName} {c : Option Entities.ColumnName} {column : ColumnName}
    (h : columnOr name c = .ok column) : column.Valid := by
  cases c with
  | some c =>
    cases h
    exact c.2
  | none => exact ColumnName.valid_of_tryNew (orElse_ok.mp h)

variable [Numerals]

theorem converted_filter {e : Entities.Filter} {f : Filter} (h : filter e = .ok f) :
    f.Converted := by
  cases e with
  | raw raw =>
    cases h
    exact raw.2
  | nullCheck column op =>
    cases h
    exact column.2
  | valueOp column op value =>
    obtain ⟨v, hv, h⟩ := bind_ok.mp h
    cases h
    refine ⟨column.2, ?_⟩
    obtain ⟨y, -, hv⟩ := bind_ok.mp hv
    cases op with
    | isIn =>
      simp only at hv
      split at hv <;> cases hv
      exact .inl rfl
    | notIn =>
      simp only at hv
      split at hv <;> cases hv
      exact .inr rfl
    | between =>
      simp only at hv
      split at hv <;> cases hv
      rfl
    | _ =>
      cases hv
      simp [filterOp]

theorem converted_filtersOpt {es : Option (List Entities.Filter)} {filters : Option (List Filter)}
    (h : filtersOpt es = .ok filters) : FiltersConverted filters := by
  intro fs hfs f hf
  subst hfs
  cases es with
  | none => cases h
  | some es =>
    obtain ⟨fs', hfs', h⟩ := bind_ok.mp h
    cases h
    obtain ⟨e, -, he⟩ := mem_of_mapM hfs' hf
    exact converted_filter he

theorem converted_through {e : Entities.Through} {t : Through} (h : through e = .ok t) :
    t.Converted := by
  obtain ⟨filters, hfilters, h⟩ := bind_ok.mp h
  cases h
  exact ⟨e.table.2, e.leftKey.2, e.rightKey.2, converted_filtersOpt hfilters⟩

theorem converted_softDelete {e : Entities.SoftDelete} {s : SoftDelete} (h : softDelete e = .ok s) :
    s.Converted := by
  cases e with
  | field field filters =>
    obtain ⟨filters, hfilters, h⟩ := bind_ok.mp h
    cases h
    exact ⟨field.2, converted_filtersOpt hfilters⟩
  | column column filters =>
    obtain ⟨filters, hfilters, h⟩ := bind_ok.mp h
    cases h
    exact ⟨column.2, converted_filtersOpt hfilters⟩

theorem converted_options (o : Entities.Options) : OptionsConverted (options o) := by
  refine ⟨sorted_map_values o.2, ?_⟩
  intro option hoption
  obtain ⟨pair, -, rfl⟩ := List.mem_map.mp hoption
  exact fromYaml_yamlToGeneric pair.2

theorem converted_default {value : Option Yaml} {d : Option GenericValue}
    (h : default value = .ok d) :
    ∀ value, d = some value → value.FromYaml ∧ value.IsDefault := by
  rintro v rfl
  cases value with
  | none => cases h
  | some value =>
    have hfrom := fromYaml_yamlToGeneric value
    simp only [default] at h
    generalize yamlToGeneric value = g at h hfrom
    cases g <;> cases h <;> exact ⟨hfrom, trivial⟩

end Conversion

/-- What the parser puts under a scalar: a type with a tag of its own, or a custom one without
transforms. -/
def Entities.ScalarParsed (ty : FlussoType) (body : Entities.ScalarBody) : Prop :=
  (∃ key, Entities.scalarType key = some ty) ∨
    (∃ postgres opensearch, ty = .custom postgres opensearch) ∧ body.transforms = none

mutual

def Entities.Field.Parsed : Entities.Field → Prop
  | .scalar ty body => Entities.ScalarParsed ty body
  | .object _ fields => Entities.AllParsed fields
  | .join _ _ fields => Entities.AllParsed fields
  | _ => True

def Entities.AllParsed : List Entities.Field → Prop
  | [] => True
  | field :: fields => field.Parsed ∧ Entities.AllParsed fields

end

namespace Entities

theorem classify_of_findTag {entries : List (Yaml × Yaml)} {tag : String} {kind : TagKind}
    (h : findTag entries = .ok (tag, kind)) : classify tag = some kind := by
  unfold findTag at h
  simp only at h
  split at h
  · cases h
  · next found hfound =>
    cases h
    have hmem : (tag, kind) ∈ [(tag, kind)] := List.mem_singleton_self _
    rw [← hfound] at hmem
    obtain ⟨key, -, hkey⟩ := List.mem_filterMap.mp hmem
    obtain ⟨kind', hkind, heq⟩ := Option.map_eq_some_iff.mp hkey
    cases heq
    exact hkind
  · cases h

theorem scalarType_of_classify {tag : String} {ty : FlussoType}
    (h : classify tag = some (.scalar ty)) : scalarType tag = some ty := by
  unfold classify at h
  split at h
  · next hty =>
    cases h
    exact hty
  · split at h <;> cases h

theorem map_orShape_ok {α β : Type} {value : Option α} {f : α → β} {b : β} :
    (Field.orShape value).map f = .ok b ↔ ∃ a, value = some a ∧ f a = b := by
  cases value <;> simp [Field.orShape, Except.map]

theorem parsed_readKind {tag : String} {kind : TagKind} {body : Yaml}
    {nested : Except FieldError (List Field)} {e : Field} (hkind : classify tag = some kind)
    (hnested : ∀ fields, nested = .ok fields → AllParsed fields)
    (h : Field.readKind kind body nested = .ok e) : e.Parsed := by
  cases kind with
  | scalar ty =>
    obtain ⟨b, -, rfl⟩ := map_orShape_ok.mp h
    exact .inl ⟨tag, scalarType_of_classify hkind⟩
  | custom =>
    obtain ⟨b, -, rfl⟩ := map_orShape_ok.mp h
    exact .inr ⟨⟨_, _, rfl⟩, rfl⟩
  | object =>
    obtain ⟨b, -, h⟩ := bind_ok.mp h
    obtain ⟨fields, hfields, h⟩ := bind_ok.mp h
    cases h
    exact hnested fields hfields
  | join verb =>
    obtain ⟨b, -, h⟩ := bind_ok.mp h
    obtain ⟨fields, hfields, h⟩ := bind_ok.mp h
    cases h
    exact hnested fields hfields
  | _ =>
    obtain ⟨b, -, rfl⟩ := map_orShape_ok.mp h
    trivial

theorem parsed_ofEntries {entries : List (Yaml × Yaml)} {nested : Except FieldError (List Field)}
    {e : Field} (hnested : ∀ fields, nested = .ok fields → AllParsed fields)
    (h : Field.ofEntries entries nested = .ok e) : e.Parsed := by
  obtain ⟨⟨tag, kind⟩, htag, h⟩ := bind_ok.mp h
  simp only at h
  generalize hread : Field.readKind kind _ nested = result at h
  cases result with
  | error e => cases h
  | ok e' =>
    cases h
    exact parsed_readKind (classify_of_findTag htag) hnested hread

mutual

theorem parsed_read : ∀ {value : Yaml} {e : Field}, Field.read value = .ok e → e.Parsed
  | .mapping entries, _, h => parsed_ofEntries (fun _ => parsed_readNested) h
  | .null, _, h => parsed_ofEntries (fun _ hnone => by cases hnone) h
  | .tagged _ value, _, h => @parsed_read value _ h

theorem parsed_readAll : ∀ {value : Yaml} {es : List Field}, Field.readAll value = .ok es →
    AllParsed es
  | .sequence items, _, h => @parsed_readItems items _ h
  | .null, _, h => by
    cases h
    trivial
  | .tagged _ value, _, h => @parsed_readAll value _ h

theorem parsed_readItems : ∀ {items : List Yaml} {es : List Field}, Field.readItems items = .ok es →
    AllParsed es
  | [], _, h => by
    cases h
    trivial
  | value :: items, _, h => by
    obtain ⟨e, he, h⟩ := bind_ok.mp h
    obtain ⟨es, hes, h⟩ := bind_ok.mp h
    cases h
    exact ⟨parsed_read he, parsed_readItems hes⟩

theorem parsed_readNested : ∀ {entries : List (Yaml × Yaml)} {es : List Field},
    Field.readNested entries = .ok es → AllParsed es
  | [], _, h => by cases h
  | (key, value) :: entries, _, h => by
    unfold Field.readNested at h
    split at h
    · cases h
    · next heq =>
      cases heq
      exact parsed_readAll h
    · next heq =>
      cases heq
      exact parsed_readNested h

end

end Entities

namespace Conversion

theorem scalarType_ne {key : String} {ty : FlussoType} (h : Entities.scalarType key = some ty) :
    ty ≠ .enum ∧ ty ≠ .geoPoint ∧ (∀ values, ty ≠ .map values) ∧
      ∀ postgres opensearch, ty ≠ .custom postgres opensearch := by
  unfold Entities.scalarType at h
  split at h <;> cases h <;> simp

theorem converted_joinNullable {verb : Entities.JoinVerb} {kind : JoinKind}
    {required : Option Bool} {nullable : Bool} (h : joinNullable verb kind required = .ok nullable) :
    kind.isToMany = true → nullable = false := by
  intro hmany
  rw [joinNullable, if_pos hmany] at h
  obtain ⟨_, -, h⟩ := bind_ok.mp h
  cases h
  rfl

theorem isAggregated_of_requireAggregateType {ty : Option FlussoType} {op : String}
    {scalar : FlussoType} (h : requireAggregateType ty op = .ok scalar) : scalar.IsAggregated := by
  obtain ⟨ty', -, h⟩ := bind_ok.mp h
  cases ty' <;> cases h <;> trivial

theorem isAggregated_of_requireElementType {ty : Option FlussoType} {scalar : FlussoType}
    (h : requireElementType ty = .ok scalar) : scalar.IsAggregated := by
  obtain ⟨ty', -, h⟩ := bind_ok.mp h
  cases ty' <;> cases h <;> trivial

theorem valid_of_requireAggregateColumn {column : Option Entities.ColumnName} {op : String}
    {c : ColumnName} (h : requireAggregateColumn column op = .ok c) : c.Valid := by
  obtain ⟨column', -, h⟩ := bind_ok.mp h
  cases h
  exact column'.2

theorem valid_databaseSchema {schema : Option String} {name : DatabaseSchema}
    (h : databaseSchema schema = .ok name) : name.Valid := by
  cases schema with
  | some schema => exact DatabaseSchema.valid_of_tryNew (orElse_ok.mp h)
  | none =>
    cases h
    change DatabaseSchema.tryNew "public" = _
    decide

theorem valid_columnOpt {column : Option String} {name : Option ColumnName}
    (h : columnOpt column = .ok name) : ∀ pk, name = some pk → pk.Valid := by
  rintro pk rfl
  cases column with
  | some column =>
    obtain ⟨c, hc, h⟩ := bind_ok.mp h
    cases h
    exact ColumnName.valid_of_tryNew (orElse_ok.mp hc)
  | none => cases h

theorem converted_typedOp {make : ColumnName → AggregateOp} {name : String}
    {body : Entities.AggregateBody} {op : AggregateOp} {valueType : Option FlussoType}
    (h : typedOp make name body = .ok (op, valueType)) :
    ∃ column : ColumnName, column.Valid ∧ op = make column ∧
      ∃ ty, valueType = some ty ∧ ty.IsAggregated := by
  obtain ⟨column, hcolumn, h⟩ := bind_ok.mp h
  obtain ⟨ty, hty, h⟩ := bind_ok.mp h
  cases h
  exact ⟨column, valid_of_requireAggregateColumn hcolumn, rfl, ty, rfl,
    isAggregated_of_requireAggregateType hty⟩

theorem converted_aggregateOp {verb : Entities.AggregateOp} {body : Entities.AggregateBody}
    {op : AggregateOp} {valueType : Option FlussoType}
    (h : aggregateOp verb body = .ok (op, valueType)) : op.Converted valueType := by
  obtain ⟨_, -, h⟩ := bind_ok.mp h
  cases verb with
  | count =>
    cases h
    rfl
  | avg =>
    obtain ⟨column, hcolumn, h⟩ := bind_ok.mp h
    cases h
    exact ⟨valid_of_requireAggregateColumn hcolumn, rfl⟩
  | sum =>
    obtain ⟨column, hcolumn, rfl, hty⟩ := converted_typedOp h
    exact ⟨hcolumn, hty⟩
  | min =>
    obtain ⟨column, hcolumn, rfl, hty⟩ := converted_typedOp h
    exact ⟨hcolumn, hty⟩
  | max =>
    obtain ⟨column, hcolumn, rfl, hty⟩ := converted_typedOp h
    exact ⟨hcolumn, hty⟩
  | ids =>
    obtain ⟨_, -, h⟩ := bind_ok.mp h
    obtain ⟨_, -, h⟩ := bind_ok.mp h
    obtain ⟨elementType, helement, h⟩ := bind_ok.mp h
    cases h
    exact ⟨isAggregated_of_requireElementType helement, rfl⟩

variable [Numerals]

theorem converted_scalarField {ty : FlussoType} {body : Entities.ScalarBody} {f : Field}
    (hparsed : Entities.ScalarParsed ty body) (h : scalarField ty body = .ok f) : f.Converted := by
  have hoptions := converted_options body.options
  by_cases hidentifier : ty = .identifier
  · subst hidentifier
    obtain ⟨column, hcolumn, h⟩ := bind_ok.mp h
    obtain ⟨d, hd, h⟩ := bind_ok.mp h
    cases h
    exact ⟨body.field.2, converted_orInsert hoptions trivial, converted_columnOr hcolumn,
      converted_default hd, isSome_orInsert, rfl⟩
  · unfold scalarField at h
    rw [show resolveColumnType ty (options body.options) = (ty, options body.options) from
      if_neg hidentifier] at h
    obtain ⟨column, hcolumn, h⟩ := bind_ok.mp h
    obtain ⟨d, hd, h⟩ := bind_ok.mp h
    cases h
    refine ⟨body.field.2, hoptions, converted_columnOr hcolumn, converted_default hd, ?_⟩
    rcases hparsed with ⟨key, hkey⟩ | ⟨⟨postgres, opensearch, rfl⟩, htransforms⟩
    · obtain ⟨henum, hgeo, hmap, hcustom⟩ := scalarType_ne hkey
      cases ty with
      | enum => exact absurd rfl henum
      | geoPoint => exact absurd rfl hgeo
      | map values => exact absurd rfl (hmap values)
      | custom postgres opensearch => exact absurd rfl (hcustom postgres opensearch)
      | identifier => exact absurd rfl hidentifier
      | _ => rfl
    · exact ⟨by rw [htransforms]; rfl, rfl⟩

theorem converted_enumField {body : Entities.EnumBody} {f : Field} (h : enumField body = .ok f) :
    f.Converted := by
  obtain ⟨u, hu, h⟩ := bind_ok.mp h
  obtain ⟨column, hcolumn, h⟩ := bind_ok.mp h
  obtain ⟨d, hd, h⟩ := bind_ok.mp h
  cases h
  exact ⟨body.field.2, converted_options body.options, converted_columnOr hcolumn,
    converted_default hd, u, hu⟩

theorem converted_mapField {body : Entities.MapBody} {f : Field} (h : mapField body = .ok f) :
    f.Converted := by
  obtain ⟨values, hvalues, h⟩ := bind_ok.mp h
  obtain ⟨column, hcolumn, h⟩ := bind_ok.mp h
  cases h
  exact ⟨body.field.2, converted_orInsert (converted_options body.options) trivial,
    converted_columnOr hcolumn, nofun, isMapValue_of_require hvalues, isSome_orInsert, rfl, rfl, rfl⟩

theorem converted_geoField {body : Entities.GeoBody} {f : Field} (h : geoField body = .ok f) :
    f.Converted := by
  unfold geoField at h
  split at h
  · next lat lon _ _ _ =>
    cases h
    exact ⟨body.field.2, converted_options body.options, lat.2, lon.2⟩
  · obtain ⟨column, hcolumn, h⟩ := bind_ok.mp h
    cases h
    exact ⟨body.field.2, converted_options body.options, converted_columnOr hcolumn, nofun, rfl, rfl,
      rfl⟩
  · cases h

theorem kind_of_joinKind {verb : Entities.JoinVerb} {body : Entities.JoinBody} {kind : JoinKind}
    (h : joinKind verb body = .ok kind) : kind.Converted ∧
      ((∃ column, kind = .belongsTo column) → verb = .belongsTo) ∧
      (kind.isToMany = false → verb = .belongsTo ∨ verb = .hasOne) := by
  obtain ⟨_, -, h⟩ := bind_ok.mp h
  obtain ⟨_, -, h⟩ := bind_ok.mp h
  obtain ⟨_, -, h⟩ := bind_ok.mp h
  cases verb with
  | belongsTo =>
    obtain ⟨column, hcolumn, h⟩ := bind_ok.mp h
    cases h
    exact ⟨converted_columnOr hcolumn, fun _ => rfl, fun _ => .inl rfl⟩
  | hasOne =>
    obtain ⟨foreignKey, -, h⟩ := bind_ok.mp h
    cases h
    exact ⟨foreignKey.2, nofun, fun _ => .inr rfl⟩
  | hasMany =>
    obtain ⟨foreignKey, -, h⟩ := bind_ok.mp h
    cases h
    exact ⟨foreignKey.2, nofun, nofun⟩
  | manyToMany =>
    obtain ⟨t, -, h⟩ := bind_ok.mp h
    obtain ⟨t', ht, h⟩ := bind_ok.mp h
    cases h
    exact ⟨converted_through ht, nofun, nofun⟩

theorem converted_joinShape {verb : Entities.JoinVerb} {body : Entities.JoinBody} {kind : JoinKind}
    {nullable : Bool} (h : joinShape verb body = .ok (kind, nullable)) :
    kind.Converted ∧ (kind.isToMany = true → nullable = false) ∧
      (body.orderBy.isSome = true → ∀ column, kind ≠ .belongsTo column) ∧
      (body.limit.isSome = true → kind.isToMany = true) := by
  obtain ⟨kind', hkind, h⟩ := bind_ok.mp h
  obtain ⟨_, horder, h⟩ := bind_ok.mp h
  obtain ⟨_, hlimit, h⟩ := bind_ok.mp h
  obtain ⟨nullable', hnullable, h⟩ := bind_ok.mp h
  cases h
  obtain ⟨hconverted, hbelongs, hone⟩ := kind_of_joinKind hkind
  refine ⟨hconverted, converted_joinNullable hnullable, ?_, ?_⟩
  · intro hsome column hcolumn
    have hrefused := refuse_ok.mp horder
    simp [hbelongs ⟨column, hcolumn⟩, hsome] at hrefused
  · intro hsome
    by_contra hmany
    have hrefused := refuse_ok.mp hlimit
    rcases hone (Bool.eq_false_iff.mpr hmany) with hverb | hverb <;>
      simp [hverb, hsome] at hrefused

theorem converted_aggregateKey {foreignKey : Option Entities.ColumnName}
    {t : Option Entities.Through} {key : AggregateKey} (h : aggregateKey foreignKey t = .ok key) :
    key.Converted := by
  unfold aggregateKey at h
  split at h
  · next foreignKey =>
    cases h
    exact foreignKey.2
  · obtain ⟨t', ht, h⟩ := bind_ok.mp h
    cases h
    exact converted_through ht
  · cases h

theorem converted_aggregate {verb : Entities.AggregateOp} {body : Entities.AggregateBody}
    {agg : Aggregate} (h : aggregate verb body = .ok agg) : agg.Converted := by
  obtain ⟨⟨op, valueType⟩, hop, h⟩ := bind_ok.mp h
  obtain ⟨key, hkey, h⟩ := bind_ok.mp h
  obtain ⟨_, hdistinct, h⟩ := bind_ok.mp h
  obtain ⟨filters, hfilters, h⟩ := bind_ok.mp h
  cases h
  refine ⟨body.table.2, converted_aggregateOp hop, converted_aggregateKey hkey,
    converted_filtersOpt hfilters, ?_⟩
  rintro htrue foreignKey rfl
  have hrefused := refuse_ok.mp hdistinct
  simp only at htrue
  simp [htrue] at hrefused

theorem converted_softDeleteOpt {e : Option Entities.SoftDelete} {s : Option SoftDelete}
    (h : softDeleteOpt e = .ok s) : ∀ s', s = some s' → s'.Converted := by
  rintro s' rfl
  cases e with
  | some e =>
    obtain ⟨s'', hs, h⟩ := bind_ok.mp h
    cases h
    exact converted_softDelete hs
  | none => cases h

mutual

theorem converted_field : ∀ {e : Entities.Field} {f : Field}, e.Parsed → field e = .ok f →
    f.Converted
  | .scalar _ _, _, hparsed, h => converted_scalarField hparsed h
  | .enum _, _, _, h => converted_enumField h
  | .geo _, _, _, h => converted_geoField h
  | .map _, _, _, h => converted_mapField h
  | .constant body, _, _, h => by
    cases h
    exact ⟨body.field.2, rfl, fromYaml_yamlToGeneric body.value⟩
  | .object body fields, _, hparsed, h => by
    obtain ⟨fields', hfields, h⟩ := bind_ok.mp h
    cases h
    exact ⟨body.field.2, converted_options body.options, converted_fieldsOf hparsed hfields⟩
  | .join verb body fields, _, hparsed, h => by
    obtain ⟨⟨kind, nullable⟩, hshape, h⟩ := bind_ok.mp h
    obtain ⟨fields', hfields, h⟩ := bind_ok.mp h
    obtain ⟨filters, hfilters, h⟩ := bind_ok.mp h
    cases h
    obtain ⟨hkind, hnullable, hordered, hlimited⟩ := converted_joinShape hshape
    refine ⟨body.field.2, converted_options body.options, ?_, converted_fieldsOf hparsed hfields⟩
    exact {
      table := body.table.2
      kind := hkind
      primaryKey := body.primaryKey.2
      nullable := hnullable
      filters := converted_filtersOpt hfilters
      orderBy := by
        intro os hos o ho
        obtain ⟨es, -, rfl⟩ := Option.map_eq_some_iff.mp hos
        obtain ⟨e, -, rfl⟩ := List.mem_map.mp ho
        exact e.column.2
      ordered := by
        intro hsome
        exact hordered (by simpa using hsome)
      limit := by
        intro n hn
        obtain ⟨limit, -, rfl⟩ := Option.map_eq_some_iff.mp hn
        exact limit.toNat_lt
      limited := by
        intro hsome
        exact hlimited (by simpa using hsome) }
  | .aggregate op body, _, _, h => by
    obtain ⟨agg, hagg, h⟩ := bind_ok.mp h
    cases h
    exact ⟨body.field.2, converted_options body.options, converted_aggregate hagg⟩

theorem converted_fieldsOf : ∀ {es : List Entities.Field} {fs : List Field}, Entities.AllParsed es →
    fieldsOf es = .ok fs → AllConverted fs
  | [], _, _, h => by
    cases h
    trivial
  | e :: es, _, hparsed, h => by
    obtain ⟨f, hf, h⟩ := bind_ok.mp h
    obtain ⟨fs, hfs, h⟩ := bind_ok.mp h
    cases h
    exact ⟨converted_field hparsed.1 hf, converted_fieldsOf hparsed.2 hfs⟩

end

end Conversion

/-- What a parsed schema of a supported version converts to. -/
theorem IndexSchema.converted_of_tryFrom [Numerals] {yaml : Entities.SchemaYaml}
    {schema : IndexSchema} (hversion : yaml.version ∈ Entities.supportedVersions)
    (hparsed : Entities.AllParsed yaml.fields) (h : tryFrom yaml = .ok schema) :
    schema.Converted := by
  obtain ⟨table, htable, h⟩ := bind_ok.mp h
  obtain ⟨dbSchema, hdbSchema, h⟩ := bind_ok.mp h
  obtain ⟨primaryKey, hprimaryKey, h⟩ := bind_ok.mp h
  obtain ⟨_, hrefused, h⟩ := bind_ok.mp h
  obtain ⟨docId, hdocId, h⟩ := bind_ok.mp h
  obtain ⟨softDelete, hsoftDelete, h⟩ := bind_ok.mp h
  obtain ⟨filters, hfilters, h⟩ := bind_ok.mp h
  obtain ⟨fields, hfields, h⟩ := bind_ok.mp h
  cases h
  exact {
    version := hversion
    table := TableName.valid_of_tryNew (Conversion.orElse_ok.mp htable)
    dbSchema := Conversion.valid_databaseSchema hdbSchema
    primaryKey := Conversion.valid_columnOpt hprimaryKey
    docId := by
      have hnone := Conversion.refuse_ok.mp hrefused
      cases hcolumn : yaml.docId with
      | none =>
        rw [hcolumn] at hdocId
        cases hdocId
        rfl
      | some column => simp [hcolumn] at hnone
    softDelete := Conversion.converted_softDeleteOpt hsoftDelete
    filters := Conversion.converted_filtersOpt hfilters
    fields := Conversion.converted_fieldsOf hparsed hfields }

end Flusso
