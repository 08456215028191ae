import Flusso.Kernel.Schema

/-! # Resolved mappings

The mapping of an index follows from its schema alone: each field's type,
whether it can be null, and the fields nested under it.
-/

namespace Flusso

inductive MappingType where
  | text
  | keyword
  | boolean
  | byte
  | short
  | integer
  | long
  | float
  | double
  | halfFloat
  | scaledFloat
  | date
  | object
  | nested
  | other (name : String)
  deriving DecidableEq

namespace MappingType

def name : MappingType → String
  | text => "text"
  | keyword => "keyword"
  | boolean => "boolean"
  | byte => "byte"
  | short => "short"
  | integer => "integer"
  | long => "long"
  | float => "float"
  | double => "double"
  | halfFloat => "half_float"
  | scaledFloat => "scaled_float"
  | date => "date"
  | object => "object"
  | nested => "nested"
  | other name => name

def fromName : String → MappingType
  | "text" => text
  | "keyword" => keyword
  | "boolean" => boolean
  | "byte" => byte
  | "short" => short
  | "integer" => integer
  | "long" => long
  | "float" => float
  | "double" => double
  | "half_float" => halfFloat
  | "scaled_float" => scaledFloat
  | "date" => date
  | "object" => object
  | "nested" => nested
  | name => other name

end MappingType

/-- The mapping type a declared type maps to. -/
def FlussoType.opensearch : FlussoType → MappingType
  | .text | .identifier => .text
  | .keyword | .enum | .uuid => .keyword
  | .boolean => .boolean
  | .short => .short
  | .integer => .integer
  | .long => .long
  | .float => .float
  | .double | .decimal => .double
  | .date | .timestamp => .date
  | .binary => .other "binary"
  | .json | .map _ => .object
  | .geoPoint => .other "geo_point"
  | .custom _ opensearch => .fromName opensearch

/-- A field's mapping: `mapValues` tells a map from a plain object, `decimal` a decimal from a
double, and `enumOrder` lists the declared variants of an ordered enum. -/
structure Mapping where
  mappingType : MappingType
  extra : Options
  mapValues : Option MappingType
  decimal : Bool
  enumOrder : Option (List String)

structure ResolvedField where
  name : FieldName
  mapping : Mapping
  nullable : Bool
  array : Bool
  children : List ResolvedField

namespace Mapping

mutual

/-- The mapping type a constant's shape implies. -/
def constantMappingType : GenericValue → MappingType
  | .bool _ => .boolean
  | .smallInt _ => .short
  | .int _ => .integer
  | .bigInt _ => .long
  | .float _ => .float
  | .double _ | .decimal _ => .double
  | .date _ | .time _ | .timestamp _ | .timestampTz _ => .date
  | .bytes _ => .other "binary"
  | .array items => constantItemsType items
  | .map _ => .object
  | .string _ | .uuid _ | .null => .keyword

def constantItemsType : List GenericValue → MappingType
  | [] => .keyword
  | value :: _ => constantMappingType value

end

/-- Type, whether it can be null, and whether it is a flat array. -/
def aggregateType (source : Aggregate) : MappingType × Bool × Bool :=
  match source.op with
  | .count => (.long, false, false)
  | .avg _ => (.double, true, false)
  | .sum _ | .min _ | .max _ =>
    ((source.valueType.map FlussoType.opensearch).getD .double, true, false)
  | .ids elementType => (elementType.opensearch, false, true)

def typeAndNullability (field : Field) (primaryKey : Option ColumnName) :
    MappingType × Bool × Bool :=
  match field with
  | .column _ _ source =>
    let forcedNonNull := primaryKey = some source.column || source.default.isSome
    (source.ty.opensearch, source.nullable && !forcedNonNull, false)
  | .group _ _ _ => (.object, false, false)
  | .geo _ _ source => (.other "geo_point", source.nullable, false)
  | .constant _ _ value => (constantMappingType value, (value matches .null), false)
  | .join _ _ source _ => (if source.kind.isToMany then .nested else .object, source.nullable, false)
  | .aggregate _ _ source => aggregateType source

/-- The value type of a map field. -/
def mapValueType : Field → Option MappingType
  | .column _ _ source =>
    match source.ty with
    | .map values => some values.opensearch
    | _ => none
  | _ => none

/-- The declared order of an enum field. -/
def enumOrderOf : Field → Option (List String)
  | .column _ _ source =>
    if source.ty = .enum ∧ source.enumOrder ≠ [] then some source.enumOrder else none
  | _ => none

def isDecimal : Field → Bool
  | .column _ _ source => source.ty = .decimal
  | .constant _ _ value => (value matches .decimal _)
  | .aggregate _ _ source =>
    match source.op with
    | .sum _ | .min _ | .max _ => source.valueType = some .decimal
    | .ids elementType => elementType = .decimal
    | .count | .avg _ => false
  | _ => false

def ofField (field : Field) (primaryKey : Option ColumnName) : Mapping where
  mappingType := (typeAndNullability field primaryKey).1
  extra := field.options
  mapValues := mapValueType field
  decimal := isDecimal field
  enumOrder := enumOrderOf field

end Mapping

/-- A field over the fields resolved below it. -/
def ResolvedField.ofField (field : Field) (primaryKey : Option ColumnName)
    (children : List ResolvedField) : ResolvedField where
  name := field.field
  mapping := .ofField field primaryKey
  nullable := (Mapping.typeAndNullability field primaryKey).2.1
  array := (Mapping.typeAndNullability field primaryKey).2.2
  children := children

mutual

/-- The primary key holds through groups, which stay on the same row; a join starts over with
its own. -/
def resolveField (field : Field) (primaryKey : Option ColumnName) : ResolvedField :=
  .ofField field primaryKey (match field with
    | .join _ _ source fields => resolveFields fields (some source.primaryKey)
    | .group _ _ fields => resolveFields fields primaryKey
    | _ => [])

def resolveFields (fields : List Field) (primaryKey : Option ColumnName) : List ResolvedField :=
  match fields with
  | [] => []
  | field :: fields => resolveField field primaryKey :: resolveFields fields primaryKey

end

/-- The leaf types the values of a map may have. -/
def FlussoType.isMapValue : FlussoType → Bool
  | .text | .identifier | .keyword | .enum | .uuid | .short | .integer | .long | .float | .double
  | .decimal | .date | .timestamp => true
  | .boolean | .binary | .json | .map _ | .geoPoint | .custom _ _ => false

/-- A map field has values of a leaf type, as conversion requires. -/
def Field.MapsLeaves : Field → Prop
  | .column _ _ source => ∀ values, source.ty = .map values → values.isMapValue = true
  | _ => True

end Flusso
