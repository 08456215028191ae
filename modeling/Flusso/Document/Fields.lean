import Flusso.Kernel.Schema

/-! # Walking a field tree

The relation paths from the root down to a table, the tables relations read, and
the column behind a field name.
-/

namespace Flusso.Document

/-- Whether a relation reads a table, as its target or as its junction. -/
def hits (relation : Relation) (table : TableName) : Bool :=
  relation.table = table ||
    match relation.key with
    | .through through => through.table = table
    | _ => false

mutual

/-- The relation paths to a table through one field; `above` is the path to the field. -/
def fieldPaths (table : TableName) (above : List Relation) : Field → List (List Relation)
  | .group _ _ fields => findPaths table above fields
  | .join _ _ source fields =>
    let path := above ++ [.join source]
    (if hits (.join source) table then [path] else []) ++ findPaths table path fields
  | .aggregate _ _ source =>
    if hits (.aggregate source) table then [above ++ [.aggregate source]] else []
  | .column .. | .geo .. | .constant .. => []

/-- Every relation path from the root down to a table; a group adds no hop. -/
def findPaths (table : TableName) (above : List Relation) : List Field → List (List Relation)
  | [] => []
  | field :: fields => fieldPaths table above field ++ findPaths table above fields

end

mutual

def fieldTables : Field → List TableName
  | .group _ _ fields => collectRelationTables fields
  | .join _ _ source fields => source.table :: collectRelationTables fields
  | .aggregate _ _ source => [source.table]
  | .column .. | .geo .. | .constant .. => []

/-- The target table of every relation, at any depth. -/
def collectRelationTables : List Field → List TableName
  | [] => []
  | field :: fields => fieldTables field ++ collectRelationTables fields

end

section Paths

variable {table : TableName} {above path : List Relation} {field : Field} {fields : List Field}

theorem mem_findPaths_of_mem (hf : field ∈ fields) (hp : path ∈ fieldPaths table above field) :
    path ∈ findPaths table above fields := by
  induction fields with
  | nil => cases hf
  | cons g fields ih =>
    rw [findPaths, List.mem_append]
    rcases List.mem_cons.mp hf with rfl | hf
    · exact Or.inl hp
    · exact Or.inr (ih hf)

theorem mem_findPaths : path ∈ findPaths table above fields ↔
    ∃ field ∈ fields, path ∈ fieldPaths table above field := by
  constructor
  · intro hp
    induction fields with
    | nil => cases hp
    | cons g fields ih =>
      rw [findPaths, List.mem_append] at hp
      rcases hp with hp | hp
      · exact ⟨g, List.mem_cons_self, hp⟩
      · obtain ⟨field, hf, hp⟩ := ih hp
        exact ⟨field, List.mem_cons_of_mem _ hf, hp⟩
  · rintro ⟨field, hf, hp⟩
    exact mem_findPaths_of_mem hf hp

theorem hits_of_mem_fieldPaths (field : Field) : ∀ {above path : List Relation},
    path ∈ fieldPaths table above field →
      ∃ rest relation, path = above ++ rest ++ [relation] ∧ hits relation table = true := by
  induction field using Field.induct with
  | node field ih =>
    intro above path hp
    have below : ∀ {above' : List Relation}, path ∈ findPaths table above' field.children →
        ∃ rest relation, path = above' ++ rest ++ [relation] ∧ hits relation table = true := by
      intro above' hp
      obtain ⟨g, hg, hp⟩ := mem_findPaths.mp hp
      exact ih g hg hp
    cases field with
    | group name options fields =>
      rw [fieldPaths] at hp
      exact below hp
    | join name options source fields =>
      rw [fieldPaths, List.mem_append] at hp
      rcases hp with hp | hp
      · split at hp
        · next hit => exact ⟨[], _, by simpa using hp, hit⟩
        · cases hp
      · obtain ⟨rest, relation, rfl, hit⟩ := below hp
        exact ⟨.join source :: rest, relation, by simp, hit⟩
    | aggregate name options source =>
      rw [fieldPaths] at hp
      split at hp
      · next hit => exact ⟨[], _, by simpa using hp, hit⟩
      · cases hp
    | column => cases hp
    | geo => cases hp
    | constant => cases hp

end Paths

mutual

def childColumn (name : FieldName) : Field → Option ColumnName
  | .group _ _ fields | .join _ _ _ fields => fieldColumn name fields
  | .column .. | .geo .. | .aggregate .. | .constant .. => none

/-- The column behind the first field of a name, at any depth. -/
def fieldColumn (name : FieldName) : List Field → Option ColumnName
  | [] => none
  | field :: fields =>
    if field.field = name then field.sourceColumn
    else (childColumn name field).orElse fun _ => fieldColumn name fields

end

end Flusso.Document
