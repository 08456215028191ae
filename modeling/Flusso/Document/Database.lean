import Flusso.Document.Fields
import Flusso.Foundation.Attempts

/-! # The database the document builder reads

PostgreSQL and its driver are a parameter: stored values, how a column is read
back, and the comparison of a column with a bound operand.
-/

namespace Flusso.Document

/-- What a query meets of PostgreSQL: stored values of type `S`. -/
class Postgres (S : Type) where
  /-- Reading a column back into a generic value; null, also for a type the reader does not know. -/
  decodeColumn : S → GenericValue
  /-- `$n::type`, unless the operand does not spell a value of the type. -/
  cast : String → GenericValue → Option S
  /-- Whether `a = b` is true. -/
  equals : S → S → Bool
  /-- The text the replication stream sends; none for null. -/
  output : S → Option String

abbrev Row (S : Type) := ColumnName → S

structure Table (S : Type) where
  sqlType : ColumnName → Option String
  primaryKey : List ColumnName
  rows : List (Row S)

abbrev Database (S : Type) := DatabaseSchema → TableName → Option (Table S)

def rowsOf {S : Type} (db : Database S) (schema : DatabaseSchema) (table : TableName) :
    List (Row S) :=
  ((db schema table).map Table.rows).getD []

/-- Why a document query fails. -/
inductive QueryError where
  | unknownTable (schema : DatabaseSchema) (table : TableName)
  | noPrimaryKey (schema : DatabaseSchema) (table : TableName)
  | compositePrimaryKey (schema : DatabaseSchema) (table : TableName)
  | unknownColumn (schema : DatabaseSchema) (table : TableName) (column : ColumnName)
  | unbindableKey
  | operand (sqlType : String)
  | indexWithoutPrimaryKey
  | targetWithoutPrimaryKey
  | compositeFarKey
  deriving DecidableEq

/-- The error as it is reported. -/
def QueryError.text : QueryError → String
  | .unknownTable schema table => s!"relation \"{schema.name}.{table.name}\" does not exist"
  | .noPrimaryKey schema table => s!"table `{schema.name}.{table.name}` has no primary key"
  | .compositePrimaryKey schema table =>
    s!"table `{schema.name}.{table.name}` has a composite primary key; " ++
      "relations require a single-column key"
  | .unknownColumn schema table column => s!"{schema.name}.{table.name}.{column.name}"
  | .unbindableKey => "cannot bind null, array, or map as a key"
  | .operand sqlType => s!"invalid input for type {sqlType}"
  | .indexWithoutPrimaryKey => "index without primary_key cannot resolve relations"
  | .targetWithoutPrimaryKey =>
    "belongs_to relations require the changed row's key to carry its primary key"
  | .compositeFarKey =>
    "many-to-many relations require a single-column key on the far/junction table"

section Queries

variable {S : Type} (db : Database S) (schema : DatabaseSchema) (table : TableName)

def tableOf : Except QueryError (Table S) :=
  match db schema table with
  | some t => .ok t
  | none => .error (.unknownTable schema table)

/-- The single-column primary key relations match against. -/
def tablePrimaryKey : Except QueryError ColumnName := do
  let t ← tableOf db schema table
  match t.primaryKey with
  | [single] => .ok single
  | [] => .error (.noPrimaryKey schema table)
  | _ => .error (.compositePrimaryKey schema table)

def columnType (column : ColumnName) : Except QueryError String := do
  let t ← tableOf db schema table
  match t.sqlType column with
  | some sqlType => .ok sqlType
  | none => .error (.unknownColumn schema table column)

variable [Postgres S]

/-- A key column's operand, cast to the column's type. -/
def operand (entry : ColumnName × GenericValue) : Except QueryError (ColumnName × S) := do
  let sqlType ← columnType db schema table entry.1
  if entry.2.isBindableScalar then
    match Postgres.cast sqlType entry.2 with
    | some s => .ok (entry.1, s)
    | none => .error (.operand sqlType)
  else .error .unbindableKey

/-- Whether a row matches every operand of a key. -/
def matchesKey (operands : List (ColumnName × S)) (row : Row S) : Bool :=
  operands.all fun entry => Postgres.equals (row entry.1) entry.2

/-- One column of the rows a key selects, its distinct non-null values. -/
def reverseQuery (select : ColumnName) (key : RowKey GenericValue) :
    Except QueryError (List GenericValue) := do
  let operands ← key.mapM (operand db schema table)
  let _ ← columnType db schema table select
  let t ← tableOf db schema table
  let values := (t.rows.filter (matchesKey operands)).map fun row =>
    Postgres.decodeColumn (row select)
  pure (values.filter fun v => !v.isNull).eraseDups

end Queries

/-- Text columns, `none` for null. -/
instance : Postgres (Option String) where
  decodeColumn
    | some text => .string text
    | none => .null
  cast _
    | .string text => some (some text)
    | _ => none
  equals a b := a.isSome && a = b
  output text := text

end Flusso.Document
