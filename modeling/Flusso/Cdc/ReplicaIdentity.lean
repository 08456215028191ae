import Flusso.Cdc.Keys
import Flusso.Kernel.Schema

/-! # Replica identity coverage

The columns of a relation that hold a link to a parent row, and which of them an
old row version delivers.
-/

namespace Flusso.Cdc

/-- A table's `pg_class.relreplident`. -/
inductive ReplicaIdentity where
  | default
  | index
  | full
  | nothing
  deriving DecidableEq

namespace ReplicaIdentity

def fromCode : String → ReplicaIdentity
  | "d" => .default
  | "i" => .index
  | "f" => .full
  | _ => .nothing

/-- The columns an identity carries, given those of its index or primary key. -/
def carries (identity : ReplicaIdentity) (indexed : List ColumnName) (column : ColumnName) : Bool :=
  match identity with
  | full => true
  | default | index => column ∈ indexed
  | nothing => false

end ReplicaIdentity

/-- The columns an announced relation's identity carries. -/
def Pgoutput.Relation.carries (rel : Pgoutput.Relation) (column : ColumnName) : Bool :=
  rel.columns.any fun c => c.isKey && c.name = column

section Uncarried

variable (carries : ColumnName → Bool) (primaryKey required : List ColumnName)

/-- The required link columns an old tuple cannot deliver. -/
def uncarried : List ColumnName :=
  let keyedByPrimaryKey := !primaryKey.isEmpty && primaryKey.all carries
  required.filter fun column => !keyedByPrimaryKey || !carries column

variable {carries primaryKey required}

theorem mem_uncarried {column : ColumnName} : column ∈ uncarried carries primaryKey required ↔
    column ∈ required ∧
      ¬ ((!primaryKey.isEmpty && primaryKey.all carries) = true ∧ carries column = true) := by
  simp only [uncarried, List.mem_filter, Bool.or_eq_true, Bool.not_eq_true', ← Bool.not_eq_true]
  tauto

/-- A link column that is not reported is carried, and so is the primary key. -/
theorem carried_of_not_mem_uncarried {rel : Pgoutput.Relation} {column : ColumnName}
    (hrequired : column ∈ required) (h : column ∉ uncarried rel.carries rel.primaryKey required) :
    rel.primaryKeyIsCarried = true ∧
      ∃ c ∈ rel.columns, c.isKey = true ∧ c.name = column := by
  rw [mem_uncarried, not_and, not_not] at h
  obtain ⟨hkeyed, hcarried⟩ := h hrequired
  refine ⟨hkeyed, ?_⟩
  simpa only [Pgoutput.Relation.carries, List.any_eq_true, Bool.and_eq_true,
    decide_eq_true_eq] using hcarried

end Uncarried

section Links

/-- The table whose rows hold the link of a relation, with the link column. -/
def rowLink (relation : Relation) : Option (TableName × ColumnName) :=
  match relation.key with
  | .direct foreignKey => some (relation.table, foreignKey)
  | .through through => some (through.table, through.leftKey)
  | .ofParent _ => none

mutual

def fieldLinkColumns : Field → List (TableName × ColumnName)
  | .group _ _ fields => collectLinkColumns fields
  | .join _ _ source fields => (rowLink (.join source)).toList ++ collectLinkColumns fields
  | .aggregate _ _ source => (rowLink (.aggregate source)).toList
  | .column .. | .geo .. | .constant .. => []

/-- The link columns of every relation of a field tree. -/
def collectLinkColumns : List Field → List (TableName × ColumnName)
  | [] => []
  | field :: fields => fieldLinkColumns field ++ collectLinkColumns fields

end

/-- The link columns of a table that the change feed must carry in its pre-images. -/
def preImageColumns (spec : SourceSpec) (schema : DatabaseSchema) (table : TableName) :
    List ColumnName :=
  (spec.indexes.flatMap fun entry =>
    if entry.2.dbSchema = schema then
      (collectLinkColumns entry.2.fields).filterMap fun link =>
        if link.1 = table then some link.2 else none
    else []).eraseDups

theorem mem_collectLinkColumns_of_mem {link : TableName × ColumnName} {field : Field}
    {fields : List Field} (hf : field ∈ fields) (h : link ∈ fieldLinkColumns field) :
    link ∈ collectLinkColumns fields := by
  induction fields with
  | nil => cases hf
  | cons g fields ih =>
    rw [collectLinkColumns, List.mem_append]
    rcases List.mem_cons.mp hf with rfl | hf
    · exact Or.inl h
    · exact Or.inr (ih hf)

theorem mem_preImageColumns {spec : SourceSpec} {entry : IndexName × IndexSchema}
    {table : TableName} {column : ColumnName} (hentry : entry ∈ spec.indexes)
    (h : (table, column) ∈ collectLinkColumns entry.2.fields) :
    column ∈ preImageColumns spec entry.2.dbSchema table := by
  rw [preImageColumns, List.mem_eraseDups, List.mem_flatMap]
  refine ⟨entry, hentry, ?_⟩
  rw [if_pos rfl, List.mem_filterMap]
  exact ⟨_, h, if_pos rfl⟩

end Links

end Flusso.Cdc
