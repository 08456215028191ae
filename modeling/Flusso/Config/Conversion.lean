import Flusso.Config.Parser
import Flusso.Config.Values
import Flusso.Kernel.Mapping

/-! # From entities to a schema

Conversion checks what the shape of a file cannot say and fills in defaults:
columns named after their fields, an analyzer for identifiers, dynamic maps.
-/

namespace Flusso

inductive ConversionError where
  | tableName
  | columnName
  | databaseSchema
  | missingJoinKey (verb expected : String)
  | unexpectedJoinKey (verb sibling expected : String)
  | unexpectedJoinSibling (verb sibling : String)
  | invalidAggregateKey
  | distinctWithoutThrough
  | missingAggregateColumn (op : String)
  | missingFilterValue (op : String)
  | invalidBetweenArity (got : ℕ)
  | expectedListValue (op : String)
  | missingAggregateType (op : String)
  | invalidAggregateType (op : String)
  | missingElementType
  | invalidElementType
  | unexpectedIdsSibling (sibling : String)
  | unexpectedAggregateSibling (sibling : String)
  | invalidGeoSource
  | invalidMapValueType (got : String)
  | docIdUnsupported
  | nonScalarDefault (got : String)
  | duplicateEnumVariant (variant : String)
  | invalidEnumVariant (variant : String)

/-- The messages; those of invalid names end in what the name type says. -/
def ConversionError.message : ConversionError → String
  | tableName => "invalid table name: "
  | columnName => "invalid column name: "
  | databaseSchema => "invalid database schema name: "
  | missingJoinKey verb expected =>
    s!"`{verb}` join is missing its key: it takes {expected}"
  | unexpectedJoinKey verb sibling expected =>
    s!"`{verb}` join does not take `{sibling}`; it takes {expected}"
  | unexpectedJoinSibling verb sibling =>
    s!"`{verb}` join does not take `{sibling}` (a to-one join picks a single row)"
  | invalidAggregateKey =>
    "aggregate must specify either `foreign_key` or `through`, not both or neither"
  | distinctWithoutThrough =>
    "aggregate `distinct` only applies over a `through` junction (a `foreign_key` aggregate " ++
      "already sees each row once)"
  | missingAggregateColumn op => s!"aggregate op '{op}' requires a `column`"
  | missingFilterValue op => s!"filter op '{op}' requires a value"
  | invalidBetweenArity got => s!"filter op 'between' requires exactly 2 values, got {got}"
  | expectedListValue op => s!"filter op '{op}' requires a sequence value"
  | missingAggregateType op =>
    s!"aggregate op '{op}' requires a `value_type` (its result mirrors the column)"
  | invalidAggregateType op =>
    s!"aggregate op '{op}' `value_type` must be a scalar type — `geo_point` and `custom` " ++
      "are not valid aggregate result types"
  | missingElementType =>
    "aggregate op 'ids' requires an `element_type` (`long` or `keyword`) — it states the " ++
      "element type of the collected primary keys"
  | invalidElementType =>
    "aggregate op 'ids' `element_type` must be a scalar type — `geo_point` and `custom` " ++
      "are not valid element types"
  | unexpectedIdsSibling sibling =>
    s!"aggregate op 'ids' does not take `{sibling}` (it always collects the related table's " ++
      "primary key)"
  | unexpectedAggregateSibling sibling =>
    s!"aggregate does not take `{sibling}` (only `ids` does)"
  | invalidGeoSource =>
    "a `geo` field needs either both `lat` and `lon` (two columns) or a single `column` " ++
      "holding a combined value — not a mix"
  | invalidMapValueType got =>
    "a `map` field's `values` must be a leaf type — `text`/`keyword` or a number/date kind " ++
      s!"(`{got}` is not one); `boolean`, `binary`, `json`, `geo`, and `custom` are not valid " ++
      "map value types"
  | docIdUnsupported =>
    "`doc_id` is not supported yet — the document `_id` is always derived from `primary_key`. " ++
      "Remove `doc_id` from the schema."
  | nonScalarDefault got =>
    "a `default` must be a scalar value (string, number, bool, or date) — a " ++
      s!"`{got}` default is not supported"
  | duplicateEnumVariant variant =>
    s!"an `enum` field lists the variant `{variant}` more than once"
  | invalidEnumVariant variant =>
    s!"the `enum` variant `{variant}` is not allowed — a variant must be non-blank and free of " ++
      "`=>` and newlines (it becomes an OpenSearch mapping char-filter rule)"

namespace Conversion

variable [Numerals]

abbrev Result (α : Type) := Except ConversionError α

def orElse {α : Type} (error : ConversionError) (value : Option α) : Result α :=
  value.elim (.error error) .ok

def refuse (wrong : Bool) (error : ConversionError) : Result Unit :=
  if wrong then .error error else pure ()

section Filters

def nullOp : Entities.NullOp → NullOp
  | .isNull => .isNull
  | .isNotNull => .isNotNull

def filterOp : Entities.FilterOp → FilterOp
  | .eq => .eq
  | .neq => .neq
  | .lt => .lt
  | .lte => .lte
  | .gt => .gt
  | .gte => .gte
  | .isIn => .isIn
  | .notIn => .notIn
  | .like => .like
  | .ilike => .ilike
  | .between => .between

def filterOpName : Entities.FilterOp → String
  | .eq => "eq"
  | .neq => "neq"
  | .lt => "lt"
  | .lte => "lte"
  | .gt => "gt"
  | .gte => "gte"
  | .isIn => "in"
  | .notIn => "not_in"
  | .like => "like"
  | .ilike => "ilike"
  | .between => "between"

def filterValue (op : Entities.FilterOp) (value : Option Yaml) : Result FilterValue := do
  let value ← orElse (.missingFilterValue (filterOpName op)) value
  match op with
  | .isIn | .notIn =>
    match value with
    | .sequence items => pure (.list (items.map yamlScalarToString))
    | _ => .error (.expectedListValue (filterOpName op))
  | .between =>
    match value with
    | .sequence [lower, upper] =>
      pure (.range (yamlScalarToString lower) (yamlScalarToString upper))
    | .sequence items => .error (.invalidBetweenArity items.length)
    | _ => .error (.expectedListValue (filterOpName op))
  | _ => pure (.single (yamlScalarToString value))

def filter : Entities.Filter → Result Filter
  | .raw raw => pure (.raw raw.1)
  | .nullCheck column op => pure (.nullCheck column.1 (nullOp op))
  | .valueOp column op value => do
    let value ← filterValue op value
    pure (.valueOp column.1 (filterOp op) value)

def filtersOpt : Option (List Entities.Filter) → Result (Option (List Filter))
  | none => pure none
  | some filters => do
    let filters ← filters.mapM filter
    pure (some filters)

end Filters

def softDelete : Entities.SoftDelete → Result SoftDelete
  | .field field filters => do
    let filters ← filtersOpt filters
    pure (.field field.1 filters)
  | .column column filters => do
    let filters ← filtersOpt filters
    pure (.column column.1 filters)

def through (t : Entities.Through) : Result Through := do
  let filters ← filtersOpt t.filters
  pure { table := t.table.1, leftKey := t.leftKey.1, rightKey := t.rightKey.1, filters }

def direction : Entities.Direction → Direction
  | .asc => .asc
  | .desc => .desc

def orderBy (o : Entities.OrderBy) : OrderBy where
  column := o.column.1
  direction := o.direction.map direction

def transform : Entities.Transform → Transform
  | .lowercase => .lowercase
  | .trim => .trim

def options (o : Entities.Options) : Options := o.1.map fun (key, value) => (key, yamlToGeneric value)

/-- The column a field reads from when none is given. -/
def defaultColumn (field : FieldName) : Result ColumnName :=
  orElse .columnName (ColumnName.tryNew field.name)

def columnOr (field : FieldName) (column : Option Entities.ColumnName) : Result ColumnName :=
  match column with
  | some column => pure column.1
  | none => defaultColumn field

/-- An entry that is kept if it is there. -/
def orInsert (key : String) (value : GenericValue) (options : Options) : Options :=
  if (Json.get options key).isSome then options else Json.insert key value options

/-- An identifier has an analyzer of its own. -/
def resolveColumnType (ty : FlussoType) (options : Options) : FlussoType × Options :=
  if ty = .identifier then (ty, orInsert "analyzer" (.string "flusso_code") options)
  else (ty, options)

/-- Only a scalar can stand in for a column's value. -/
def default (value : Option Yaml) : Result (Option GenericValue) :=
  match value with
  | none => pure none
  | some value =>
    match yamlToGeneric value with
    | .array _ => .error (.nonScalarDefault "array")
    | .map _ => .error (.nonScalarDefault "object")
    | .bytes _ => .error (.nonScalarDefault "binary")
    | scalar => pure (some scalar)

def containsText (needle : List Char) : List Char → Bool
  | [] => needle.isEmpty
  | c :: text => needle.isPrefixOf (c :: text) || containsText needle text

/-- Variants are not blank, hold no rule arrow and no newline, and are told apart. -/
def validateEnumOrder (seen : List String) : List String → Result Unit
  | [] => pure ()
  | variant :: order =>
    if trim variant.toList = [] || containsText "=>".toList variant.toList ||
        '\n' ∈ variant.toList then
      .error (.invalidEnumVariant variant)
    else if variant ∈ seen then .error (.duplicateEnumVariant variant)
    else validateEnumOrder (variant :: seen) order

def requireMapValueType (ty : FlussoType) : Result FlussoType :=
  match ty with
  | .boolean => .error (.invalidMapValueType "boolean")
  | .binary => .error (.invalidMapValueType "binary")
  | .json => .error (.invalidMapValueType "json")
  | .map _ => .error (.invalidMapValueType "map")
  | .geoPoint => .error (.invalidMapValueType "geo")
  | .custom _ _ => .error (.invalidMapValueType "custom")
  | _ => pure ty

section Leaves

def scalarField (ty : FlussoType) (body : Entities.ScalarBody) : Result Field := do
  let column ← columnOr body.field.1 body.column
  let (ty, options) := resolveColumnType ty (options body.options)
  let default ← default body.default
  pure (.column body.field.1 options {
    column, ty, default
    nullable := !body.required
    transforms := (body.transforms.map fun ts => ts.map transform).getD []
    enumOrder := [] })

def enumField (body : Entities.EnumBody) : Result Field := do
  validateEnumOrder [] body.variants
  let column ← columnOr body.field.1 body.column
  let (ty, options) := resolveColumnType .enum (options body.options)
  let default ← default body.default
  pure (.column body.field.1 options {
    column, ty, default
    nullable := !body.required
    transforms := (body.transforms.map fun ts => ts.map transform).getD []
    enumOrder := body.variants })

/-- A map is a dynamic object, unless its options say otherwise. -/
def mapField (body : Entities.MapBody) : Result Field := do
  let values ← requireMapValueType body.values
  let column ← columnOr body.field.1 body.column
  pure (.column body.field.1 (orInsert "dynamic" (.bool true) (options body.options)) {
    column
    ty := .map values
    nullable := !body.required
    transforms := []
    default := none
    enumOrder := [] })

/-- Two coordinate columns, or one that holds a point. -/
def geoField (body : Entities.GeoBody) : Result Field :=
  match body.lat, body.lon, body.column with
  | some lat, some lon, none =>
    pure (.geo body.field.1 (options body.options) {
      lat := lat.1
      lon := lon.1
      nullable := !body.required })
  | none, none, column => do
    let column ← columnOr body.field.1 column
    pure (.column body.field.1 (options body.options) {
      column
      ty := .geoPoint
      nullable := !body.required
      transforms := []
      default := none
      enumOrder := [] })
  | _, _, _ => .error .invalidGeoSource

def constantField (body : Entities.ConstantBody) : Field :=
  .constant body.field.1 [] (yamlToGeneric body.value)

end Leaves

section Joins

/-- What a verb's key sibling is. -/
def keyHint : Entities.JoinVerb → String
  | .belongsTo =>
    "`column` — this table's column pointing at the related row (defaults to the field name)"
  | .hasOne | .hasMany =>
    "`foreign_key` — the related table's column pointing back at this row"
  | .manyToMany => "`through` — the junction table and its two keys"

def allowedKey : Entities.JoinVerb → String
  | .belongsTo => "column"
  | .hasOne | .hasMany => "foreign_key"
  | .manyToMany => "through"

def siblingNotAllowed (verb : Entities.JoinVerb) (sibling : String) : ConversionError :=
  .unexpectedJoinSibling verb.asStr sibling

def requireJoinKey {α : Type} (verb : Entities.JoinVerb) (key : Option α) : Result α :=
  orElse (.missingJoinKey verb.asStr (keyHint verb)) key

/-- Refuses a key sibling of another verb. -/
def checkJoinKey (verb : Entities.JoinVerb) (sibling : String) (isPresent : Bool) : Result Unit :=
  refuse (isPresent && sibling ≠ allowedKey verb)
    (.unexpectedJoinKey verb.asStr sibling (keyHint verb))

def joinKind (verb : Entities.JoinVerb) (body : Entities.JoinBody) : Result JoinKind := do
  checkJoinKey verb "column" body.column.isSome
  checkJoinKey verb "foreign_key" body.foreignKey.isSome
  checkJoinKey verb "through" body.through.isSome
  match verb with
  | .belongsTo => do
    let column ← columnOr body.field.1 body.column
    pure (.belongsTo column)
  | .hasOne => do
    let foreignKey ← requireJoinKey verb body.foreignKey
    pure (.hasOne foreignKey.1)
  | .hasMany => do
    let foreignKey ← requireJoinKey verb body.foreignKey
    pure (.hasMany foreignKey.1)
  | .manyToMany => do
    let t ← requireJoinKey verb body.through
    let t ← through t
    pure (.manyToMany t)

/-- Whether a join can be absent: a to-many join never is. -/
def joinNullable (verb : Entities.JoinVerb) (kind : JoinKind) (required : Option Bool) :
    Result Bool :=
  if kind.isToMany then do
    refuse required.isSome (siblingNotAllowed verb "required")
    pure false
  else pure (!required.getD false)

/-- A join's kind and whether it can be absent; only rows to choose among can be ordered or
limited. -/
def joinShape (verb : Entities.JoinVerb) (body : Entities.JoinBody) : Result (JoinKind × Bool) := do
  let kind ← joinKind verb body
  refuse (verb = .belongsTo && body.orderBy.isSome) (siblingNotAllowed verb "order_by")
  refuse ((verb = .belongsTo || verb = .hasOne) && body.limit.isSome)
    (siblingNotAllowed verb "limit")
  let nullable ← joinNullable verb kind body.required
  pure (kind, nullable)

end Joins

section Aggregates

def requireAggregateColumn (column : Option Entities.ColumnName) (op : String) :
    Result ColumnName := do
  let column ← orElse (.missingAggregateColumn op) column
  pure column.1

def requireAggregateType (ty : Option FlussoType) (op : String) : Result FlussoType := do
  match ← orElse (.missingAggregateType op) ty with
  | .geoPoint | .custom _ _ => .error (.invalidAggregateType op)
  | scalar => pure scalar

def requireElementType (ty : Option FlussoType) : Result FlussoType := do
  match ← orElse .missingElementType ty with
  | .geoPoint | .custom _ _ => .error .invalidElementType
  | scalar => pure scalar

/-- An op over a column whose type it has. -/
def typedOp (op : ColumnName → AggregateOp) (name : String) (body : Entities.AggregateBody) :
    Result (AggregateOp × Option FlussoType) := do
  let column ← requireAggregateColumn body.column name
  let ty ← requireAggregateType body.valueType name
  pure (op column, some ty)

def aggregateOp (op : Entities.AggregateOp) (body : Entities.AggregateBody) :
    Result (AggregateOp × Option FlussoType) := do
  refuse (body.elementType.isSome && op ≠ .ids) (.unexpectedAggregateSibling "element_type")
  match op with
  | .count => pure (.count, none)
  | .avg => do
    let column ← requireAggregateColumn body.column "avg"
    pure (.avg column, none)
  | .sum => typedOp .sum "sum" body
  | .min => typedOp .min "min" body
  | .max => typedOp .max "max" body
  | .ids => do
    refuse body.column.isSome (.unexpectedIdsSibling "column")
    refuse body.valueType.isSome (.unexpectedIdsSibling "value_type")
    let elementType ← requireElementType body.elementType
    pure (.ids elementType, none)

/-- Exactly one of a foreign key and a junction. -/
def aggregateKey (foreignKey : Option Entities.ColumnName) (t : Option Entities.Through) :
    Result AggregateKey :=
  match foreignKey, t with
  | some foreignKey, none => pure (.direct foreignKey.1)
  | none, some t => do
    let t ← through t
    pure (.through t)
  | _, _ => .error .invalidAggregateKey

def aggregate (op : Entities.AggregateOp) (body : Entities.AggregateBody) : Result Aggregate := do
  let (op, valueType) ← aggregateOp op body
  let key ← aggregateKey body.foreignKey body.through
  refuse (body.distinct && key matches .direct _) .distinctWithoutThrough
  let filters ← filtersOpt body.filters
  pure { table := body.table.1, op, key, valueType, filters, distinct := body.distinct }

end Aggregates

mutual

def field : Entities.Field → Result Field
  | .scalar ty body => scalarField ty body
  | .enum body => enumField body
  | .geo body => geoField body
  | .object body fields => do
    let fields ← fieldsOf fields
    pure (.group body.field.1 (options body.options) fields)
  | .map body => mapField body
  | .join verb body fields => do
    let (kind, nullable) ← joinShape verb body
    let fields ← fieldsOf fields
    let filters ← filtersOpt body.filters
    pure (.join body.field.1 (options body.options) {
      table := body.table.1
      kind, nullable, filters
      primaryKey := body.primaryKey.1
      orderBy := body.orderBy.map fun os => os.map orderBy
      limit := body.limit.map UInt64.toNat } fields)
  | .aggregate op body => do
    let source ← aggregate op body
    pure (.aggregate body.field.1 (options body.options) source)
  | .constant body => pure (constantField body)

def fieldsOf : List Entities.Field → Result (List Field)
  | [] => pure []
  | f :: fs => do
    let f ← field f
    let fs ← fieldsOf fs
    pure (f :: fs)

end

end Conversion

namespace Conversion

def databaseSchema : Option String → Result DatabaseSchema
  | some schema => orElse .databaseSchema (DatabaseSchema.tryNew schema)
  | none => pure ⟨"public"⟩

def columnOpt : Option String → Result (Option ColumnName)
  | some column => do
    let column ← orElse .columnName (ColumnName.tryNew column)
    pure (some column)
  | none => pure none

def softDeleteOpt [Numerals] : Option Entities.SoftDelete → Result (Option SoftDelete)
  | some s => do
    let s ← softDelete s
    pure (some s)
  | none => pure none

end Conversion

def IndexSchema.tryFrom [Numerals] (yaml : Entities.SchemaYaml) :
    Except ConversionError IndexSchema := do
  let table ← Conversion.orElse .tableName (TableName.tryNew yaml.table)
  let dbSchema ← Conversion.databaseSchema yaml.schema
  let primaryKey ← Conversion.columnOpt yaml.primaryKey
  Conversion.refuse yaml.docId.isSome .docIdUnsupported
  let docId ← Conversion.columnOpt yaml.docId
  let softDelete ← Conversion.softDeleteOpt yaml.softDelete
  let filters ← Conversion.filtersOpt yaml.filters
  let fields ← Conversion.fieldsOf yaml.fields
  pure {
    version := yaml.version
    table, dbSchema, primaryKey, docId, softDelete, filters, fields }

end Flusso
