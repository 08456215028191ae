import Flusso.Config.Conversion

/-! # Regenerating schema files

The inverse of parsing: a schema as a YAML value in the type-first form, each
field with its type tag first and its siblings behind it.
-/

namespace Flusso.Codegen

open Yaml (object field?)

section Filters

def nullOpYaml : NullOp → Yaml
  | .isNull => .string "is_null"
  | .isNotNull => .string "is_not_null"

/-- An op as it serializes. -/
def filterOpYaml : FilterOp → Yaml
  | .eq => .string "eq"
  | .neq => .string "neq"
  | .lt => .string "lt"
  | .lte => .string "lte"
  | .gt => .string "gt"
  | .gte => .string "gte"
  | .isIn => .string "in"
  | .notIn => .string "not_in"
  | .like => .string "like"
  | .ilike => .string "ilike"
  | .between => .string "between"

def filterOperand : FilterValue → Yaml
  | .single s => .string s
  | .list items => .sequence (items.map .string)
  | .range lower upper => .sequence [.string lower, .string upper]

def filterValue : Filter → Yaml
  | .raw raw => object [("raw", .string raw)]
  | .nullCheck column op => object [("column", .string column.name), ("op", nullOpYaml op)]
  | .valueOp column op value =>
    object [("column", .string column.name), ("op", filterOpYaml op), ("value", filterOperand value)]

def filtersValue (filters : List Filter) : Yaml := .sequence (filters.map filterValue)

end Filters

def throughValue (through : Through) : Yaml :=
  object ([("table", .string through.table.name), ("left_key", .string through.leftKey.name),
    ("right_key", .string through.rightKey.name)] ++
    field? "filters" (through.filters.map filtersValue))

def directionYaml : Direction → Yaml
  | .asc => .string "asc"
  | .desc => .string "desc"

def orderByValue (orderBy : List OrderBy) : Yaml :=
  .sequence (orderBy.map fun ob =>
    object ([("column", .string ob.column.name)] ++
      field? "direction" (ob.direction.map directionYaml)))

def transformYaml : Transform → Yaml
  | .lowercase => .string "lowercase"
  | .trim => .string "trim"

def transformsValue (transforms : List Transform) : Yaml := .sequence (transforms.map transformYaml)

def softDeleteValue : SoftDelete → Yaml
  | .field field filters =>
    object ([("field", .string field.name)] ++ field? "when" (filters.map filtersValue))
  | .column column filters =>
    object ([("column", .string column.name)] ++ field? "when" (filters.map filtersValue))

def optionsValue (options : Options) : Yaml :=
  object (options.map fun (key, value) => (key, value.toYaml))

/-- A declared type as it serializes. -/
def typeYaml : FlussoType → Yaml
  | .text => .string "text"
  | .identifier => .string "identifier"
  | .keyword => .string "keyword"
  | .enum => .string "enum"
  | .uuid => .string "uuid"
  | .boolean => .string "boolean"
  | .short => .string "short"
  | .integer => .string "integer"
  | .long => .string "long"
  | .float => .string "float"
  | .double => .string "double"
  | .decimal => .string "decimal"
  | .date => .string "date"
  | .timestamp => .string "timestamp"
  | .binary => .string "binary"
  | .json => .string "json"
  | .map values => .tagged "map" (object [("values", typeYaml values)])
  | .geoPoint => .string "geo_point"
  | .custom postgres opensearch =>
    .tagged "custom" (object [("postgres", .sequence (postgres.map .string)),
      ("opensearch", .string opensearch)])

/-- The type tag of a leaf. -/
def scalarTag : FlussoType → String
  | .text => "text"
  | .identifier => "identifier"
  | .keyword => "keyword"
  | .enum => "enum"
  | .uuid => "uuid"
  | .boolean => "boolean"
  | .short => "short"
  | .integer => "integer"
  | .long => "long"
  | .float => "float"
  | .double => "double"
  | .decimal => "decimal"
  | .date => "date"
  | .timestamp => "timestamp"
  | .binary => "binary"
  | .json => "json"
  | .map _ => "map"
  | .geoPoint => "geo"
  | .custom _ _ => "custom"

/-- A field's type tag, and its siblings. -/
abbrev Tagged := String × List (String × Yaml)

/-- What only some column types have. -/
def typeSiblings : FlussoType → List (String × Yaml)
  | .map values => [("values", typeYaml values)]
  | .custom postgres opensearch =>
    [("postgres", .sequence (postgres.map .string)), ("opensearch", .string opensearch)]
  | _ => []

/-- The column is written only if it is not the field's own name. -/
def columnField (name : String) (column : Column) : Tagged :=
  (scalarTag column.ty, typeSiblings column.ty ++
    field? "column" (if column.column.name = name then none else some (.string column.column.name)) ++
    [("required", .bool !column.nullable)] ++
    field? "variants"
      (if column.enumOrder = [] then none else some (.sequence (column.enumOrder.map .string))) ++
    field? "transforms"
      (if column.transforms = [] then none else some (transformsValue column.transforms)) ++
    field? "default" (column.default.map GenericValue.toYaml))

def geoField (geo : Geo) : Tagged :=
  ("geo", [("lat", .string geo.lat.name), ("lon", .string geo.lon.name),
    ("required", .bool !geo.nullable)])

/-- The verb of a join, and the key it takes. -/
def joinKey : JoinKind → Tagged
  | .belongsTo column => ("belongs_to", [("column", .string column.name)])
  | .hasOne foreignKey => ("has_one", [("foreign_key", .string foreignKey.name)])
  | .hasMany foreignKey => ("has_many", [("foreign_key", .string foreignKey.name)])
  | .manyToMany through => ("many_to_many", [("through", throughValue through)])

/-- Only a to-one join can be required. -/
def joinField (join : Join) (fields : Yaml) : Tagged :=
  let (tag, key) := joinKey join.kind
  (tag, [("table", .string join.table.name), ("primary_key", .string join.primaryKey.name)] ++ key ++
    field? "required" (if join.kind.isToMany then none else some (.bool !join.nullable)) ++
    field? "filters" (join.filters.map filtersValue) ++
    field? "order_by" (join.orderBy.map orderByValue) ++
    field? "limit" (join.limit.map fun limit => .number (.posInt (UInt64.ofNat limit))) ++
    [("fields", fields)])

def aggregateOp : AggregateOp → Tagged
  | .count => ("count", [])
  | .avg column => ("avg", [("column", .string column.name)])
  | .sum column => ("sum", [("column", .string column.name)])
  | .min column => ("min", [("column", .string column.name)])
  | .max column => ("max", [("column", .string column.name)])
  | .ids elementType => ("ids", [("element_type", typeYaml elementType)])

def aggregateKey : AggregateKey → List (String × Yaml)
  | .direct foreignKey => [("foreign_key", .string foreignKey.name)]
  | .through through => [("through", throughValue through)]

def aggregateField (agg : Aggregate) : Tagged :=
  let (tag, own) := aggregateOp agg.op
  (tag, [("table", .string agg.table.name)] ++ own ++
    field? "value_type" (agg.valueType.map typeYaml) ++ aggregateKey agg.key ++
    field? "distinct" (if agg.distinct then some (.bool true) else none) ++
    field? "filters" (agg.filters.map filtersValue))

/-- A field's mapping, the tag first. -/
def tagged (name : FieldName) (options : Options) (source : Tagged) : Yaml :=
  object ((source.1, .string name.name) :: (source.2 ++
    field? "options" (if options = [] then none else some (optionsValue options))))

mutual

def fieldValue : Field → Yaml
  | .column name options source => tagged name options (columnField name.name source)
  | .geo name options source => tagged name options (geoField source)
  | .group name options fields =>
    tagged name options ("object", [("fields", .sequence (fieldValues fields))])
  | .join name options source fields =>
    tagged name options (joinField source (.sequence (fieldValues fields)))
  | .aggregate name options source => tagged name options (aggregateField source)
  | .constant name options value => tagged name options ("constant", [("value", value.toYaml)])

def fieldValues : List Field → List Yaml
  | [] => []
  | field :: fields => fieldValue field :: fieldValues fields

end

/-- A schema as the document it is written as. -/
def schemaToYaml (schema : IndexSchema) : Yaml :=
  object ([("version", .number (.posInt (UInt64.ofNat schema.version.toNat))),
    ("table", .string schema.table.name)] ++
    field? "schema"
      (if schema.dbSchema.name = "public" then none else some (.string schema.dbSchema.name)) ++
    field? "primary_key" (schema.primaryKey.map fun pk => .string pk.name) ++
    field? "soft_delete" (schema.softDelete.map softDeleteValue) ++
    field? "filters" (schema.filters.map filtersValue) ++
    [("fields", .sequence (fieldValues schema.fields))])

end Flusso.Codegen
