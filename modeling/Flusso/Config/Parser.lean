import Flusso.Config.Entities

/-! # Parsing schema files

How the entities are read off a YAML value. The library's own errors are kept
as one; those of the field form are the program's.
-/

namespace Flusso.Entities

open Yaml (asStr asBool asU64 asList asRecord mandatory defaulted optional)

mutual

/-- A value an untagged enum cannot be read from: buffered content takes no tags. -/
def hasTag : Yaml → Bool
  | .tagged _ _ => true
  | .sequence items => itemsHaveTag items
  | .mapping entries => entriesHaveTag entries
  | _ => false

def itemsHaveTag : List Yaml → Bool
  | [] => false
  | value :: items => hasTag value || itemsHaveTag items

def entriesHaveTag : List (Yaml × Yaml) → Bool
  | [] => false
  | (key, value) :: entries => hasTag key || hasTag value || entriesHaveTag entries

end

/-- A unit variant, by its name. -/
def readVariant {α : Type} (variants : List (String × α)) : Yaml → Option α
  | .string name => Json.get variants name
  | _ => none

def NullOp.read : Yaml → Option NullOp :=
  readVariant [("is_null", .isNull), ("is_not_null", .isNotNull)]

def FilterOp.read : Yaml → Option FilterOp :=
  readVariant [("eq", .eq), ("neq", .neq), ("lt", .lt), ("lte", .lte), ("gt", .gt), ("gte", .gte),
    ("in", .isIn), ("not_in", .notIn), ("like", .like), ("ilike", .ilike), ("between", .between)]

def Direction.read : Yaml → Option Direction := readVariant [("asc", .asc), ("desc", .desc)]

def Transform.read : Yaml → Option Transform :=
  readVariant [("lowercase", .lowercase), ("trim", .trim)]

namespace Filter

def readRaw (value : Yaml) : Option Filter := do
  let fields ← asRecord ["raw"] value
  let raw ← mandatory fields "raw" readRawFilterValue
  pure (.raw raw)

def readNullCheck (value : Yaml) : Option Filter := do
  let fields ← asRecord ["column", "op"] value
  let column ← mandatory fields "column" readColumnName
  let op ← mandatory fields "op" NullOp.read
  pure (.nullCheck column op)

def readValueOp (value : Yaml) : Option Filter := do
  let fields ← asRecord ["column", "op", "value"] value
  let column ← mandatory fields "column" readColumnName
  let op ← mandatory fields "op" FilterOp.read
  let value ← optional fields "value" some
  pure (.valueOp column op value)

/-- The first of the forms that fits. -/
def read (value : Yaml) : Option Filter :=
  if hasTag value then none
  else (readRaw value).or ((readNullCheck value).or (readValueOp value))

end Filter

def readFilters (fields : List (String × Yaml)) (key : String) : Option (Option (List Filter)) :=
  optional fields key (asList Filter.read)

def Through.read (value : Yaml) : Option Through := do
  let fields ← asRecord ["table", "left_key", "right_key", "filters"] value
  pure {
    table := ← mandatory fields "table" readTableName
    leftKey := ← mandatory fields "left_key" readColumnName
    rightKey := ← mandatory fields "right_key" readColumnName
    filters := ← readFilters fields "filters" }

def OrderBy.read (value : Yaml) : Option OrderBy := do
  let fields ← asRecord ["column", "direction"] value
  pure {
    column := ← mandatory fields "column" readColumnName
    direction := ← optional fields "direction" Direction.read }

namespace SoftDelete

def readField (value : Yaml) : Option SoftDelete := do
  let fields ← asRecord ["field", "when"] value
  let field ← mandatory fields "field" readFieldName
  let filters ← readFilters fields "when"
  pure (.field field filters)

def readColumn (value : Yaml) : Option SoftDelete := do
  let fields ← asRecord ["column", "when"] value
  let column ← mandatory fields "column" readColumnName
  let filters ← readFilters fields "when"
  pure (.column column filters)

def read (value : Yaml) : Option SoftDelete :=
  if hasTag value then none else (readField value).or (readColumn value)

end SoftDelete

/-- The leaf types with a name of their own. -/
def unitTypes : List (String × FlussoType) :=
  [("text", .text), ("identifier", .identifier), ("keyword", .keyword), ("enum", .enum),
    ("uuid", .uuid), ("boolean", .boolean), ("short", .short), ("integer", .integer),
    ("long", .long), ("float", .float), ("double", .double), ("decimal", .decimal),
    ("date", .date), ("timestamp", .timestamp), ("binary", .binary), ("json", .json),
    ("geo_point", .geoPoint)]

mutual

def readType : Yaml → Option FlussoType
  | .string name => Json.get unitTypes name
  | .tagged "map" (.mapping entries) => (readValues entries).map .map
  | .tagged "custom" (.mapping entries) => do
    let fields ← (Yaml.mapping entries).asFields
    let postgres ← mandatory fields "postgres" (asList asStr)
    let opensearch ← mandatory fields "opensearch" asStr
    pure (.custom postgres opensearch)
  | _ => none

def readValues : List (Yaml × Yaml) → Option FlussoType
  | [] => none
  | (.string "values", value) :: _ => readType value
  | (_, _) :: entries => readValues entries

end

section Bodies

variable (fields : List (String × Yaml))

def readFieldOptions : Option Options :=
  defaulted fields "options" readOptions ⟨[], List.Pairwise.nil⟩

def ScalarBody.read (value : Yaml) : Option ScalarBody := do
  let fields ← asRecord ["field", "column", "required", "options", "transforms", "default"] value
  pure {
    field := ← mandatory fields "field" readFieldName
    column := ← optional fields "column" readColumnName
    required := ← mandatory fields "required" asBool
    options := ← readFieldOptions fields
    transforms := ← optional fields "transforms" (asList Transform.read)
    default := ← optional fields "default" some }

def EnumBody.read (value : Yaml) : Option EnumBody := do
  let fields ← asRecord
    ["field", "variants", "column", "required", "options", "transforms", "default"] value
  pure {
    field := ← mandatory fields "field" readFieldName
    variants := ← defaulted fields "variants" (asList asStr) []
    column := ← optional fields "column" readColumnName
    required := ← mandatory fields "required" asBool
    options := ← readFieldOptions fields
    transforms := ← optional fields "transforms" (asList Transform.read)
    default := ← optional fields "default" some }

def CustomBody.read (value : Yaml) : Option CustomBody := do
  let fields ← asRecord
    ["field", "postgres", "opensearch", "column", "required", "options", "default"] value
  pure {
    field := ← mandatory fields "field" readFieldName
    postgres := ← mandatory fields "postgres" (asList asStr)
    opensearch := ← mandatory fields "opensearch" asStr
    column := ← optional fields "column" readColumnName
    required := ← mandatory fields "required" asBool
    options := ← readFieldOptions fields
    default := ← optional fields "default" some }

def GeoBody.read (value : Yaml) : Option GeoBody := do
  let fields ← asRecord ["field", "lat", "lon", "column", "required", "options"] value
  pure {
    field := ← mandatory fields "field" readFieldName
    lat := ← optional fields "lat" readColumnName
    lon := ← optional fields "lon" readColumnName
    column := ← optional fields "column" readColumnName
    required := ← mandatory fields "required" asBool
    options := ← readFieldOptions fields }

def MapBody.read (value : Yaml) : Option MapBody := do
  let fields ← asRecord ["field", "values", "column", "required", "options"] value
  pure {
    field := ← mandatory fields "field" readFieldName
    values := ← mandatory fields "values" readType
    column := ← optional fields "column" readColumnName
    required := ← mandatory fields "required" asBool
    options := ← readFieldOptions fields }

def ObjectBody.read (value : Yaml) : Option ObjectBody := do
  let fields ← asRecord ["field", "options", "fields"] value
  pure {
    field := ← mandatory fields "field" readFieldName
    options := ← readFieldOptions fields }

def JoinBody.read (value : Yaml) : Option JoinBody := do
  let fields ← asRecord ["field", "table", "primary_key", "required", "column", "foreign_key",
    "through", "filters", "order_by", "limit", "fields", "options"] value
  pure {
    field := ← mandatory fields "field" readFieldName
    table := ← mandatory fields "table" readTableName
    primaryKey := ← mandatory fields "primary_key" readColumnName
    required := ← optional fields "required" asBool
    column := ← optional fields "column" readColumnName
    foreignKey := ← optional fields "foreign_key" readColumnName
    through := ← optional fields "through" Through.read
    filters := ← readFilters fields "filters"
    orderBy := ← optional fields "order_by" (asList OrderBy.read)
    limit := ← optional fields "limit" asU64
    options := ← readFieldOptions fields }

def AggregateBody.read (value : Yaml) : Option AggregateBody := do
  let fields ← asRecord ["field", "table", "column", "value_type", "element_type", "foreign_key",
    "through", "distinct", "filters", "options"] value
  pure {
    field := ← mandatory fields "field" readFieldName
    table := ← mandatory fields "table" readTableName
    column := ← optional fields "column" readColumnName
    valueType := ← optional fields "value_type" readType
    elementType := ← optional fields "element_type" readType
    foreignKey := ← optional fields "foreign_key" readColumnName
    through := ← optional fields "through" Through.read
    distinct := ← defaulted fields "distinct" asBool false
    filters := ← readFilters fields "filters"
    options := ← readFieldOptions fields }

def ConstantBody.read (value : Yaml) : Option ConstantBody := do
  let fields ← asRecord ["field", "value"] value
  pure {
    field := ← mandatory fields "field" readFieldName
    value := ← mandatory fields "value" some }

end Bodies

/-- Which kind of field a type tag denotes. -/
inductive TagKind where
  | scalar (ty : FlussoType)
  | enum
  | custom
  | geo
  | object
  | map
  | join (verb : JoinVerb)
  | aggregate (op : AggregateOp)
  | constant

/-- The leaf type a scalar tag denotes. -/
def scalarType : String → Option FlussoType
  | "text" => some .text
  | "identifier" => some .identifier
  | "keyword" => some .keyword
  | "uuid" => some .uuid
  | "boolean" => some .boolean
  | "short" => some .short
  | "integer" => some .integer
  | "long" => some .long
  | "float" => some .float
  | "double" => some .double
  | "decimal" => some .decimal
  | "date" => some .date
  | "timestamp" => some .timestamp
  | "binary" => some .binary
  | "json" => some .json
  | _ => none

/-- The kind a key denotes, if it is a type tag. -/
def classify (key : String) : Option TagKind :=
  match scalarType key with
  | some ty => some (.scalar ty)
  | none =>
    match key with
    | "enum" => some .enum
    | "custom" => some .custom
    | "geo" => some .geo
    | "object" => some .object
    | "map" => some .map
    | "belongs_to" => some (.join .belongsTo)
    | "has_one" => some (.join .hasOne)
    | "has_many" => some (.join .hasMany)
    | "many_to_many" => some (.join .manyToMany)
    | "count" => some (.aggregate .count)
    | "sum" => some (.aggregate .sum)
    | "avg" => some (.aggregate .avg)
    | "min" => some (.aggregate .min)
    | "max" => some (.aggregate .max)
    | "ids" => some (.aggregate .ids)
    | "constant" => some .constant
    | _ => none

inductive FieldError where
  /-- A shape the library refuses. -/
  | shape
  | tagTwice (previous key : String)
  | noTag (keys : List String)
  /-- The body of a field, by its type tag and document key. -/
  | body (tag : String) (name : Yaml) (detail : FieldError)

/-- The texts the field form has of its own; `shape` stands for what the library says. -/
def FieldError.message (shape : String) : FieldError → String
  | .shape => shape
  | .tagTwice previous key => s!"field has more than one type tag: `{previous}` and `{key}`"
  | .noTag keys =>
    let here :=
      if keys.isEmpty then "" else " (this field has keys: " ++ ", ".intercalate keys ++ ")"
    s!"field is missing a type tag{here}; expected one of: a scalar type like " ++
      "`keyword`/`text`/`integer`, or `custom`, `geo`, `object`, `map`, " ++
      "`belongs_to`/`has_one`/`has_many`/`many_to_many`, " ++
      "`count`/`sum`/`avg`/`min`/`max`/`ids`, `constant`"
  | .body tag name detail =>
    let name := match name with
      | .string name => name
      | _ => shape
    s!"`{tag}` field `{name}`: {message shape detail}"

def keyOf : Yaml → Option String
  | .string key => some key
  | _ => none

/-- The single recognized type tag among a mapping's keys. -/
def findTag (entries : List (Yaml × Yaml)) : Except FieldError (String × TagKind) :=
  let keys := entries.filterMap fun entry => keyOf entry.1
  match keys.filterMap fun key => (classify key).map (key, ·) with
  | [] => .error (.noTag keys)
  | [tag] => .ok tag
  | (previous, _) :: (key, _) :: _ => .error (.tagTwice previous key)

/-- The mapping with the tag's value moved under `field`. -/
def bodyOf (tag : String) (name : Yaml) (entries : List (Yaml × Yaml)) : Yaml :=
  .mapping ((entries.filter fun entry => keyOf entry.1 ≠ some tag && keyOf entry.1 ≠ some "field") ++
    [(.string "field", name)])

namespace Field

def orShape {α : Type} (read : Option α) : Except FieldError α := read.elim (.error .shape) .ok

/-- The body a kind owns; `nested` is what stands under `fields`. -/
def readKind (kind : TagKind) (body : Yaml) (nested : Except FieldError (List Field)) :
    Except FieldError Field :=
  match kind with
  | .scalar ty => (orShape (ScalarBody.read body)).map (.scalar ty)
  | .enum => (orShape (EnumBody.read body)).map .enum
  | .custom => (orShape (CustomBody.read body)).map fun c =>
    .scalar (.custom c.postgres c.opensearch) {
      field := c.field
      column := c.column
      required := c.required
      options := c.options
      transforms := none
      default := c.default }
  | .geo => (orShape (GeoBody.read body)).map .geo
  | .object => do
    let body ← orShape (ObjectBody.read body)
    let fields ← nested
    pure (.object body fields)
  | .map => (orShape (MapBody.read body)).map .map
  | .join verb => do
    let body ← orShape (JoinBody.read body)
    let fields ← nested
    pure (.join verb body fields)
  | .aggregate op => (orShape (AggregateBody.read body)).map (.aggregate op)
  | .constant => (orShape (ConstantBody.read body)).map .constant

def ofEntries (entries : List (Yaml × Yaml)) (nested : Except FieldError (List Field)) :
    Except FieldError Field := do
  let (tag, kind) ← findTag entries
  let name := (entries.find? fun entry => keyOf entry.1 = some tag).elim .null Prod.snd
  (readKind kind (bodyOf tag name entries) nested).mapError (.body tag name)

mutual

def read : Yaml → Except FieldError Field
  | .mapping entries => ofEntries entries (readNested entries)
  | .null => ofEntries [] (.error .shape)
  | .tagged _ value => read value
  | _ => .error .shape

/-- A sequence of fields. -/
def readAll : Yaml → Except FieldError (List Field)
  | .sequence items => readItems items
  | .null => .ok []
  | .tagged _ value => readAll value
  | _ => .error .shape

def readItems : List Yaml → Except FieldError (List Field)
  | [] => .ok []
  | value :: items => do
    let field ← read value
    let fields ← readItems items
    pure (field :: fields)

/-- The fields under a mapping's own `fields`. -/
def readNested : List (Yaml × Yaml) → Except FieldError (List Field)
  | [] => .error .shape
  | (.string "fields", value) :: _ => readAll value
  | (_, _) :: entries => readNested entries

end

end Field

inductive ParseError where
  | malformed (error : FieldError)
  | unsupportedVersion (got : UInt8)

namespace SchemaYaml

def asU8 (value : Yaml) : Option UInt8 := do
  let n ← value.asU64
  if n.toNat < 256 then some (UInt8.ofNat n.toNat) else none

def read (value : Yaml) : Except FieldError SchemaYaml := do
  let record ← Field.orShape (asRecord
    ["version", "table", "schema", "primary_key", "doc_id", "soft_delete", "filters", "fields"] value)
  let version ← Field.orShape (mandatory record "version" asU8)
  let table ← Field.orShape (mandatory record "table" asStr)
  let schema ← Field.orShape (optional record "schema" asStr)
  let primaryKey ← Field.orShape (optional record "primary_key" asStr)
  let docId ← Field.orShape (optional record "doc_id" asStr)
  let softDelete ← Field.orShape (optional record "soft_delete" SoftDelete.read)
  let filters ← Field.orShape (readFilters record "filters")
  let fields ← (Json.get record "fields").elim (.error .shape) Field.readAll
  pure { version, table, schema, primaryKey, docId, softDelete, filters, fields }

/-- Reads a schema of a supported version. -/
def tryParse (value : Yaml) : Except ParseError SchemaYaml := do
  let result ← (read value).mapError .malformed
  if result.version ∈ supportedVersions then pure result
  else .error (.unsupportedVersion result.version)

end SchemaYaml

end Flusso.Entities
