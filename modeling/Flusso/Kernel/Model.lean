import Flusso.Stream.Ledger

/-! # The vocabulary of the pipeline

Names, documents, envelopes and lane items. `V` stands for the generic values a
key or a body is made of.
-/

namespace Flusso

structure SinkName where
  name : String
  deriving DecidableEq

structure IndexName where
  name : String
  deriving DecidableEq

structure TableName where
  name : String
  deriving DecidableEq

structure ColumnName where
  name : String
  deriving DecidableEq

structure DatabaseSchema where
  name : String
  deriving DecidableEq

/-- The table a backfill scans for an index. -/
structure SnapshotTable where
  dbSchema : DatabaseSchema
  table : TableName
  deriving DecidableEq

/-- The key columns of a row with their values. -/
abbrev RowKey (V : Type*) := List (ColumnName × V)

structure DocumentId (V : Type*) where
  index : IndexName
  key : RowKey V
  deriving DecidableEq

inductive Document (V : Type*) where
  | upsert (id : DocumentId V) (body : V)
  | delete (id : DocumentId V)
  deriving DecidableEq

inductive Op where
  | upsert
  | delete
  deriving DecidableEq

structure Envelope (V : Type*) where
  index : IndexName
  id : String
  op : Op
  document : Option V
  position : Option ℕ
  deriving DecidableEq

structure Batch (V : Type*) where
  position : Option ℕ
  changes : ℕ
  envelopes : List (Envelope V)
  deriving DecidableEq

inductive LaneItem (V : Type*) where
  | batch (batch : Batch V)
  | snapshotComplete (indexes : List IndexName)
  deriving DecidableEq

/-- A sink's request to backfill some of its indexes. -/
structure Request where
  sink : SinkName
  indexes : List IndexName
  deriving DecidableEq

instance : Stream.Positioned Request where
  position _ := none

/-- Whether the resume point survived from the last run. -/
inductive Continuity where
  | fresh
  | resumed
  deriving DecidableEq

/-- The text a key value contributes to a sink id. -/
class ValueText (V : Type*) where
  valueToString : V → String

instance : ValueText String := ⟨id⟩

section Documents

variable {V : Type*}

def Document.id : Document V → DocumentId V
  | .upsert id _ => id
  | .delete id => id

variable [ValueText V]

/-- The sink's document id: the key's values joined with `:`. -/
def documentId (id : DocumentId V) : String :=
  ":".intercalate (id.key.map fun column => ValueText.valueToString column.2)

def Document.envelope (position : Option ℕ) : Document V → Envelope V
  | .upsert id body =>
    { index := id.index, id := documentId id, op := .upsert, document := some body, position }
  | .delete id =>
    { index := id.index, id := documentId id, op := .delete, document := none, position }

variable {position : Option ℕ} {d : Document V}

@[simp] theorem Document.index_envelope : (d.envelope position).index = d.id.index := by
  cases d <;> rfl

@[simp] theorem Document.id_envelope : (d.envelope position).id = documentId d.id := by
  cases d <;> rfl

end Documents

end Flusso
