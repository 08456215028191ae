import Flusso.Kernel.Schema
import Flusso.Sink.Values

/-! # Types for an assembled document

A document comes from the server as one JSON value. Its declared fields are
given the types the schema declares; what no type is declared for keeps its
JSON shape, numbers that are no 64-bit integers as decimals.
-/

namespace Flusso

namespace JsonValue

def asBool : JsonValue → Option Bool
  | bool b => some b
  | _ => none

def asI64 : JsonValue → Option Int64
  | number n => n.asI64
  | _ => none

def asF64 : JsonValue → Option UInt64
  | number n => some n.asF64
  | _ => none

def asStr : JsonValue → Option String
  | string s => some s
  | _ => none

end JsonValue

/-- A finite double as a single. -/
def narrow (bits : UInt64) : UInt32 :=
  let (n, d) := BinaryFloat.ratio BinaryFloat.double (bits.toNat % 2 ^ 63)
  UInt32.ofNat (BinaryFloat.ofRatio BinaryFloat.single n d + bits.toNat / 2 ^ 63 * 2 ^ 31)

/-- The times that texts spell. -/
class Times where
  date : String → Option NaiveDate
  time : String → Option NaiveTime
  dateTime : String → Option NaiveDateTime
  /-- With an offset, as the instant in UTC. -/
  instant : String → Option NaiveDateTime

section Untyped

variable [Decimals]

def JsonNumber.text : JsonNumber → String
  | .posInt n => toString n.toNat
  | .negInt i _ => toString i.toInt
  | .float bits _ => Numerals.floatText bits

/-- A float as a decimal, or else as its text. -/
def float (bits : UInt64) : GenericValue :=
  match Decimals.ofF64 bits with
  | some d => .decimal d
  | none => .string (floatText BinaryFloat.double (2 ^ 63) bits.toNat)

def numberToGeneric (n : JsonNumber) : GenericValue :=
  match n.asI64 with
  | some i => .bigInt i
  | none => float n.asF64

mutual

def jsonToGeneric : JsonValue → GenericValue
  | .null => .null
  | .bool b => .bool b
  | .number n => numberToGeneric n
  | .string s => .string s
  | .array items => .array (jsonToItems items)
  | .object fields => .map (jsonToFields fields)

def jsonToItems : List JsonValue → List GenericValue
  | [] => []
  | value :: items => jsonToGeneric value :: jsonToItems items

def jsonToFields : List (String × JsonValue) → List (String × GenericValue)
  | [] => []
  | (key, value) :: fields => (key, jsonToGeneric value) :: jsonToFields fields

end

/-- A decimal is read from the text of a number, or from a string. -/
def coerceDecimal (json : JsonValue) : GenericValue :=
  let parsed := match json with
    | .number n => Numerals.decimal n.text
    | .string s => Numerals.decimal s
    | _ => none
  parsed.elim (jsonToGeneric json) .decimal

end Untyped

section Typed

variable [Decimals] [Times]

/-- The tightest kind of time that a text spells. -/
def parseTemporal (s : String) : Option GenericValue :=
  match Times.instant s with
  | some instant => some (.timestampTz instant)
  | none =>
    match Times.dateTime s with
    | some naive => some (.timestamp naive)
    | none =>
      match Times.time s with
      | some time => some (.time time)
      | none => (Times.date s).map .date

def coerceScalar (json : JsonValue) (ty : FlussoType) : GenericValue :=
  let orUntyped (value : Option GenericValue) : GenericValue := value.getD (jsonToGeneric json)
  match json, ty with
  | .null, _ => .null
  | json, .boolean => orUntyped (json.asBool.map .bool)
  | json, .short => orUntyped ((json.asI64.filter fun i => -2 ^ 15 ≤ i.toInt ∧ i.toInt < 2 ^ 15).map
      fun i => .smallInt i.toInt16)
  | json, .integer => orUntyped ((json.asI64.filter fun i => -2 ^ 31 ≤ i.toInt ∧ i.toInt < 2 ^ 31).map
      fun i => .int i.toInt32)
  | json, .long => orUntyped (json.asI64.map .bigInt)
  | json, .float => orUntyped (json.asF64.map fun bits => .float (narrow bits))
  | json, .double => orUntyped (json.asF64.map .double)
  | json, .decimal => coerceDecimal json
  | json, .uuid => orUntyped ((json.asStr.bind parseUuid).map .uuid)
  | json, .date => orUntyped ((json.asStr.bind Times.date).map .date)
  | json, .timestamp => orUntyped (json.asStr.bind parseTemporal)
  | json, _ => jsonToGeneric json

/-- A list is coerced item by item, any other value keeps its shape. -/
def coerceItems (item : JsonValue → GenericValue) : JsonValue → GenericValue
  | .array items => .array (items.map item)
  | other => jsonToGeneric other

def coerceAggregate (json : JsonValue) (aggregate : Aggregate) : GenericValue :=
  match aggregate.op with
  | .count => coerceScalar json .long
  | .avg _ => coerceScalar json .double
  | .sum _ | .min _ | .max _ =>
    match aggregate.valueType with
    | some ty => coerceScalar json ty
    | none => jsonToGeneric json
  | .ids elementType => coerceItems (coerceScalar · elementType) json

/-- An object is read field by field; any other value can only be untyped. -/
def coerceObject (read : List (String × JsonValue) → List (String × GenericValue)) :
    JsonValue → GenericValue
  | .object object => .map (Json.ofPairs (read object))
  | value => jsonToGeneric value

/-- A list of documents, a document, or null. -/
def coerceRelation (document : JsonValue → GenericValue) : JsonValue → GenericValue
  | .array items => .array (items.map document)
  | value => document value

mutual

def coerceField : Field → JsonValue → GenericValue
  | .column _ _ source, json => coerceScalar json source.ty
  | .group _ _ fields, json => coerceObject (coerceFields fields) json
  | .join _ _ _ fields, json => coerceRelation (coerceObject (coerceFields fields)) json
  | .aggregate _ _ source, json => coerceAggregate json source
  | .geo _ _ _, json | .constant _ _ _, json => jsonToGeneric json

/-- The declared fields that an object holds; each is taken out of it. -/
def coerceFields : List Field → List (String × JsonValue) → List (String × GenericValue)
  | [], _ => []
  | f :: fields, object =>
    match Json.get object f.field.name with
    | some json =>
      (f.field.name, coerceField f json) ::
        coerceFields fields (object.filter fun entry => entry.1 ≠ f.field.name)
    | none => coerceFields fields object

end

def coerceDocument (value : JsonValue) (fields : List Field) : GenericValue :=
  coerceObject (coerceFields fields) value

end Typed

end Flusso
