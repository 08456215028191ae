import Flusso.Kernel.Names
import Flusso.Kernel.Value

/-! # Index schemas

The field tree of an index: columns, groups of the same row, geo points,
relations folded in as documents or reduced to a value, and constants.
-/

namespace Flusso

structure FieldName where
  name : String
  deriving DecidableEq

/-- The declared type of a leaf field. -/
inductive FlussoType where
  | text
  | identifier
  | keyword
  | enum
  | uuid
  | boolean
  | short
  | integer
  | long
  | float
  | double
  | decimal
  | date
  | timestamp
  | binary
  | json
  | map (values : FlussoType)
  | geoPoint
  | custom (postgres : List String) (opensearch : String)
  deriving DecidableEq

inductive Transform where
  | lowercase
  | trim
  deriving DecidableEq

inductive NullOp where
  | isNull
  | isNotNull
  deriving DecidableEq

inductive FilterOp where
  | eq
  | neq
  | lt
  | lte
  | gt
  | gte
  | isIn
  | notIn
  | like
  | ilike
  | between
  deriving DecidableEq

inductive FilterValue where
  | single (value : String)
  | list (values : List String)
  | range (lower upper : String)
  deriving DecidableEq

/-- A condition on the rows a relation or an index sees. -/
inductive Filter where
  | raw (sql : String)
  | nullCheck (column : ColumnName) (op : NullOp)
  | valueOp (column : ColumnName) (op : FilterOp) (value : FilterValue)
  deriving DecidableEq

inductive Direction where
  | asc
  | desc
  deriving DecidableEq

structure OrderBy where
  column : ColumnName
  direction : Option Direction
  deriving DecidableEq

/-- A junction table linking two sides of a many-to-many relation. -/
structure Through where
  table : TableName
  leftKey : ColumnName
  rightKey : ColumnName
  filters : Option (List Filter)
  deriving DecidableEq

inductive JoinKind where
  | belongsTo (column : ColumnName)
  | hasOne (foreignKey : ColumnName)
  | hasMany (foreignKey : ColumnName)
  | manyToMany (through : Through)
  deriving DecidableEq

def JoinKind.isToMany : JoinKind → Bool
  | .hasMany _ | .manyToMany _ => true
  | _ => false

/-- A join without the fields it projects, which stand beside it in the field tree. -/
structure Join where
  table : TableName
  kind : JoinKind
  primaryKey : ColumnName
  nullable : Bool
  filters : Option (List Filter)
  orderBy : Option (List OrderBy)
  limit : Option ℕ
  deriving DecidableEq

inductive AggregateOp where
  | count
  | sum (column : ColumnName)
  | avg (column : ColumnName)
  | min (column : ColumnName)
  | max (column : ColumnName)
  | ids (elementType : FlussoType)
  deriving DecidableEq

inductive AggregateKey where
  | direct (foreignKey : ColumnName)
  | through (through : Through)
  deriving DecidableEq

structure Aggregate where
  table : TableName
  op : AggregateOp
  key : AggregateKey
  valueType : Option FlussoType
  filters : Option (List Filter)
  distinct : Bool
  deriving DecidableEq

inductive Relation where
  | join (join : Join)
  | aggregate (aggregate : Aggregate)
  deriving DecidableEq

/-- The three shapes the link between two tables can take. -/
inductive RelationKey where
  /-- The parent row holds the related row's key. -/
  | ofParent (column : ColumnName)
  /-- The related rows hold the parent's key. -/
  | direct (foreignKey : ColumnName)
  | through (through : Through)
  deriving DecidableEq

namespace Relation

def table : Relation → TableName
  | .join source => source.table
  | .aggregate source => source.table

def key : Relation → RelationKey
  | .join source =>
    match source.kind with
    | .belongsTo column => .ofParent column
    | .hasOne foreignKey | .hasMany foreignKey => .direct foreignKey
    | .manyToMany through => .through through
  | .aggregate source =>
    match source.key with
    | .direct foreignKey => .direct foreignKey
    | .through through => .through through

def filters : Relation → Option (List Filter)
  | .join source => source.filters
  | .aggregate source => source.filters

end Relation

/-- A field's data without its name and mapping options, except for the fields below it. -/
structure Column where
  column : ColumnName
  ty : FlussoType
  nullable : Bool
  transforms : List Transform
  default : Option GenericValue
  enumOrder : List String

structure Geo where
  lat : ColumnName
  lon : ColumnName
  nullable : Bool
  deriving DecidableEq

abbrev Options := List (String × GenericValue)

inductive Field where
  | column (field : FieldName) (options : Options) (source : Column)
  | group (field : FieldName) (options : Options) (fields : List Field)
  | geo (field : FieldName) (options : Options) (source : Geo)
  | join (field : FieldName) (options : Options) (source : Join) (fields : List Field)
  | aggregate (field : FieldName) (options : Options) (source : Aggregate)
  | constant (field : FieldName) (options : Options) (value : GenericValue)

namespace Field

def field : Field → FieldName
  | column field _ _ | group field _ _ | geo field _ _ | join field _ _ _ | aggregate field _ _
  | constant field _ _ => field

def options : Field → Options
  | column _ options _ | group _ options _ | geo _ options _ | join _ options _ _
  | aggregate _ options _ | constant _ options _ => options

/-- The fields nested directly under a field. -/
def children : Field → List Field
  | group _ _ fields | join _ _ _ fields => fields
  | _ => []

def relation : Field → Option Relation
  | join _ _ source _ => some (.join source)
  | aggregate _ _ source => some (.aggregate source)
  | _ => none

/-- The column a plain column field reads. -/
def sourceColumn : Field → Option ColumnName
  | column _ _ source => some source.column
  | _ => none

/-- A field and the fields below it, whatever they are. -/
theorem induct {P : Field → Prop} (node : ∀ f : Field, (∀ g ∈ f.children, P g) → P f) :
    ∀ f, P f := by
  intro f
  apply Field.rec (motive_1 := P) (motive_2 := fun fields => ∀ g ∈ fields, P g)
  case column => exact fun field options source => node (column field options source) nofun
  case group => exact fun field options fields ih => node (group field options fields) ih
  case geo => exact fun field options source => node (geo field options source) nofun
  case join => exact fun field options source fields ih => node (join field options source fields) ih
  case aggregate => exact fun field options source => node (aggregate field options source) nofun
  case constant => exact fun field options value => node (constant field options value) nofun
  case nil => exact nofun
  case cons =>
    intro f fields hf hfields g hg
    rcases List.mem_cons.mp hg with rfl | hg
    · exact hf
    · exact hfields g hg

end Field

inductive SoftDelete where
  | field (field : FieldName) (filters : Option (List Filter))
  | column (column : ColumnName) (filters : Option (List Filter))
  deriving DecidableEq

structure IndexSchema where
  version : UInt8
  table : TableName
  dbSchema : DatabaseSchema
  primaryKey : Option ColumnName
  docId : Option ColumnName
  softDelete : Option SoftDelete
  filters : Option (List Filter)
  fields : List Field

/-- The enabled indexes of a source, each with its schema. -/
structure SourceSpec where
  indexes : List (IndexName × IndexSchema)
  indexes_nodup : (indexes.map Prod.fst).Nodup

def SourceSpec.schema (spec : SourceSpec) (index : IndexName) : Option IndexSchema :=
  (spec.indexes.find? fun entry => entry.1 = index).map Prod.snd

theorem SourceSpec.schema_of_mem {spec : SourceSpec} {index : IndexName} {schema : IndexSchema}
    (h : (index, schema) ∈ spec.indexes) : spec.schema index = some schema := by
  obtain ⟨entries, hnodup⟩ := spec
  simp only [SourceSpec.schema]
  induction entries with
  | nil => cases h
  | cons entry entries ih =>
    simp only [List.map_cons, List.nodup_cons] at hnodup
    rcases List.mem_cons.mp h with rfl | h
    · simp
    · have hne : entry.1 ≠ index := by
        rintro rfl
        exact hnodup.1 (List.mem_map.mpr ⟨_, h, rfl⟩)
      rw [List.find?_cons_of_neg (by simpa using hne)]
      exact ih hnodup.2 h

end Flusso
