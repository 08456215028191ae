import Flusso.Cdc.Pgoutput

/-! # Row keys and pre-images

What a decoded tuple says about its row: the key that addresses it and, for an
old tuple, the columns its replica identity carries beyond that key.
-/

namespace Flusso.Cdc

/-- A row's values before a change, as far as the change feed carried them. -/
abbrev RowImage (V : Type*) := List (ColumnName × V)

/-- The old value of a column, if the pre-image carried it. -/
def RowImage.get {V : Type*} (image : RowImage V) (column : ColumnName) : Option V :=
  (image.find? fun entry => entry.1 = column).map Prod.snd

inductive ChangeEvent (V : Type*) where
  | upsert (table : TableName) (key : RowKey V) (before : Option (RowImage V))
  | delete (table : TableName) (key : RowKey V) (before : Option (RowImage V))
  deriving DecidableEq

namespace ChangeEvent

variable {V : Type*}

def table : ChangeEvent V → TableName
  | .upsert table _ _ | .delete table _ _ => table

def key : ChangeEvent V → RowKey V
  | .upsert _ key _ | .delete _ key _ => key

def before : ChangeEvent V → Option (RowImage V)
  | .upsert _ _ before | .delete _ _ before => before

end ChangeEvent

/-- The values pgoutput's text cells are read as, by the column's type OID. -/
class CellValue (V : Type) where
  typedValue : String → UInt32 → V
  null : V

instance : CellValue String where
  typedValue text _ := text
  null := "null"

/-- Why a row message yields no change. -/
inductive SourceError where
  | decode (error : Pgoutput.DecodeError)
  | keyless (table : TableName)
  | unknownRelation (oid : UInt32)
  | primaryKey (table : TableName)
  deriving DecidableEq

namespace Pgoutput

namespace Relation

def primaryKeyIsCarried (rel : Relation) : Bool :=
  !rel.primaryKey.isEmpty && rel.primaryKey.all fun pk =>
    rel.columns.any fun column => column.isKey && column.name = pk

/-- Whether a column keys a change: the primary key does while the replica identity carries
all of it, otherwise the identity columns do. -/
def keys (rel : Relation) (column : Column) : Bool :=
  if rel.primaryKeyIsCarried then column.name ∈ rel.primaryKey else column.isKey

end Relation

section Tuples

variable {V : Type} [CellValue V] (rel : Relation)

/-- The key of a tuple; one without key columns cannot be addressed. -/
def rowKey (tuple : Tuple) : Except SourceError (RowKey V) :=
  let pairs := ((rel.columns.zip tuple).filter fun entry => rel.keys entry.1).map fun entry =>
    (entry.1.name, match entry.2 with
      | .text text => CellValue.typedValue text entry.1.typeOid
      | .null => CellValue.null
      | .unchanged => CellValue.null)
  if pairs.isEmpty then .error (.keyless rel.table) else .ok pairs

/-- The identity columns an old tuple carries values of. -/
def carried (old : Tuple) : List (Column × V) :=
  (rel.columns.zip old).filterMap fun entry =>
    if entry.1.isKey then
      match entry.2 with
      | .text text => some (entry.1, CellValue.typedValue text entry.1.typeOid)
      | .null => some (entry.1, CellValue.null)
      | .unchanged => none
    else none

/-- The pre-image an old tuple carries, unless it adds nothing to the key. -/
def preImage (old : Tuple) : Option (RowImage V) :=
  let entries := carried rel old
  if entries.any fun entry => !rel.keys entry.1 then
    some (entries.map fun entry => (entry.1.name, entry.2))
  else none

/-- The changes a row message on a relation stands for; a changed key is a delete and an
upsert. -/
def insertChanges (new : Tuple) : Except SourceError (List (ChangeEvent V)) := do
  let key ← rowKey rel new
  pure [.upsert rel.table key none]

def updateChanges [BEq V] (old : Option Tuple) (new : Tuple) :
    Except SourceError (List (ChangeEvent V)) := do
  let newKey : RowKey V ← rowKey rel new
  match old with
  | none => pure [.upsert rel.table newKey none]
  | some old =>
    let oldKey : RowKey V ← rowKey rel old
    let before : Option (RowImage V) := preImage rel old
    if oldKey == newKey then pure [.upsert rel.table newKey before]
    else pure [.delete rel.table oldKey before, .upsert rel.table newKey before]

def deleteChanges (old : Tuple) : Except SourceError (List (ChangeEvent V)) := do
  let key ← rowKey rel old
  pure [.delete rel.table key (preImage rel old)]

end Tuples

end Pgoutput

end Flusso.Cdc
