import Flusso.Config.Names
import Flusso.Config.Yaml

/-! # Schema files as they are parsed

A field's type is a key of its mapping: the key selects the body, its value is
the document key, and what stands beside it belongs to the body. Names are
validated as they are read.
-/

namespace Flusso.Entities

abbrev ColumnName := {name : Flusso.ColumnName // name.Valid}

abbrev TableName := {name : Flusso.TableName // name.Valid}

abbrev FieldName := {name : Flusso.FieldName // name.Valid}

abbrev RawFilterValue := {sql : String // rawFilterValue sql = some sql}

abbrev Options := {options : List (String × Yaml) // Json.Sorted options}

inductive NullOp where
  | isNull
  | isNotNull

inductive FilterOp where
  | eq
  | neq
  | lt
  | lte
  | gt
  | gte
  | isIn
  | notIn
  | like
  | ilike
  | between

inductive Filter where
  | raw (raw : RawFilterValue)
  | nullCheck (column : ColumnName) (op : NullOp)
  | valueOp (column : ColumnName) (op : FilterOp) (value : Option Yaml)

structure Through where
  table : TableName
  leftKey : ColumnName
  rightKey : ColumnName
  filters : Option (List Filter)

inductive Direction where
  | asc
  | desc

structure OrderBy where
  column : ColumnName
  direction : Option Direction

inductive SoftDelete where
  | field (field : FieldName) (filters : Option (List Filter))
  | column (column : ColumnName) (filters : Option (List Filter))

inductive Transform where
  | lowercase
  | trim

inductive JoinVerb where
  | belongsTo
  | hasOne
  | hasMany
  | manyToMany
  deriving DecidableEq

def JoinVerb.asStr : JoinVerb → String
  | belongsTo => "belongs_to"
  | hasOne => "has_one"
  | hasMany => "has_many"
  | manyToMany => "many_to_many"

inductive AggregateOp where
  | count
  | sum
  | avg
  | min
  | max
  | ids
  deriving DecidableEq

structure ScalarBody where
  field : FieldName
  column : Option ColumnName
  required : Bool
  options : Options
  transforms : Option (List Transform)
  default : Option Yaml

structure EnumBody where
  field : FieldName
  variants : List String
  column : Option ColumnName
  required : Bool
  options : Options
  transforms : Option (List Transform)
  default : Option Yaml

structure CustomBody where
  field : FieldName
  postgres : List String
  opensearch : String
  column : Option ColumnName
  required : Bool
  options : Options
  default : Option Yaml

structure GeoBody where
  field : FieldName
  lat : Option ColumnName
  lon : Option ColumnName
  column : Option ColumnName
  required : Bool
  options : Options

structure MapBody where
  field : FieldName
  values : FlussoType
  column : Option ColumnName
  required : Bool
  options : Options

structure ObjectBody where
  field : FieldName
  options : Options

/-- A join without the fields it projects. -/
structure JoinBody where
  field : FieldName
  table : TableName
  primaryKey : ColumnName
  required : Option Bool
  column : Option ColumnName
  foreignKey : Option ColumnName
  through : Option Through
  filters : Option (List Filter)
  orderBy : Option (List OrderBy)
  limit : Option UInt64
  options : Options

structure AggregateBody where
  field : FieldName
  table : TableName
  column : Option ColumnName
  valueType : Option FlussoType
  elementType : Option FlussoType
  foreignKey : Option ColumnName
  through : Option Through
  distinct : Bool
  filters : Option (List Filter)
  options : Options

structure ConstantBody where
  field : FieldName
  value : Yaml

inductive Field where
  | scalar (ty : FlussoType) (body : ScalarBody)
  | enum (body : EnumBody)
  | geo (body : GeoBody)
  | object (body : ObjectBody) (fields : List Field)
  | map (body : MapBody)
  | join (verb : JoinVerb) (body : JoinBody) (fields : List Field)
  | aggregate (op : AggregateOp) (body : AggregateBody)
  | constant (body : ConstantBody)

structure SchemaYaml where
  version : UInt8
  table : String
  schema : Option String
  primaryKey : Option String
  docId : Option String
  softDelete : Option SoftDelete
  filters : Option (List Filter)
  fields : List Field

def supportedVersions : List UInt8 := [1]

section Names

variable {text : String}

def readColumnName (value : Yaml) : Option ColumnName := do
  let text ← value.asStr
  match h : Flusso.ColumnName.tryNew text with
  | some name => some ⟨name, ColumnName.valid_of_tryNew h⟩
  | none => none

def readTableName (value : Yaml) : Option TableName := do
  let text ← value.asStr
  match h : Flusso.TableName.tryNew text with
  | some name => some ⟨name, TableName.valid_of_tryNew h⟩
  | none => none

def readFieldName (value : Yaml) : Option FieldName := do
  let text ← value.asStr
  match h : Flusso.FieldName.tryNew text with
  | some name => some ⟨name, FieldName.valid_of_tryNew h⟩
  | none => none

def readRawFilterValue (value : Yaml) : Option RawFilterValue := do
  let text ← value.asStr
  match h : rawFilterValue text with
  | some raw => some ⟨raw, rawFilterValue_kept h⟩
  | none => none

def readOptions (value : Yaml) : Option Options := do
  let fields ← value.asFields
  pure ⟨Json.ofPairs fields, Json.sorted_ofPairs⟩

theorem readColumnName_of_valid {name : Flusso.ColumnName} (h : name.Valid) :
    readColumnName (.string name.name) = some ⟨name, h⟩ := by
  simp only [readColumnName, Yaml.asStr, Option.bind_eq_bind, Option.bind_some]
  split
  · next name' heq =>
    cases heq.symm.trans h
    rfl
  · next heq => cases heq.symm.trans h

theorem readTableName_of_valid {name : Flusso.TableName} (h : name.Valid) :
    readTableName (.string name.name) = some ⟨name, h⟩ := by
  simp only [readTableName, Yaml.asStr, Option.bind_eq_bind, Option.bind_some]
  split
  · next name' heq =>
    cases heq.symm.trans h
    rfl
  · next heq => cases heq.symm.trans h

theorem readFieldName_of_valid {name : Flusso.FieldName} (h : name.Valid) :
    readFieldName (.string name.name) = some ⟨name, h⟩ := by
  simp only [readFieldName, Yaml.asStr, Option.bind_eq_bind, Option.bind_some]
  split
  · next name' heq =>
    cases heq.symm.trans h
    rfl
  · next heq => cases heq.symm.trans h

theorem readRawFilterValue_of_valid {raw : String} (h : rawFilterValue raw = some raw) :
    readRawFilterValue (.string raw) = some ⟨raw, h⟩ := by
  simp only [readRawFilterValue, Yaml.asStr, Option.bind_eq_bind, Option.bind_some]
  split
  · next raw' heq =>
    cases heq.symm.trans h
    rfl
  · next heq => cases heq.symm.trans h

theorem readOptions_object {fields : List (String × Yaml)} (h : Json.Sorted fields) :
    readOptions (Yaml.object fields) = some ⟨fields, h⟩ := by
  simp [readOptions, Yaml.asFields_object, Json.ofPairs_of_sorted h]

end Names

end Flusso.Entities
