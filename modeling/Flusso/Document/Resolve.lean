import Flusso.Cdc.Cells
import Flusso.Document.Database

/-! # Reverse resolution

From a changed row to the root documents it affects, by walking every relation
path back up to the root. Each hop reads the current database; the first one
also takes the old parent from the change's pre-image.
-/

namespace Flusso.Document

open Cdc

/-- The primary-key value of a changed target row, which a `belongs_to` parent holds. -/
def localTargetValue (relation : Relation) (key : RowKey GenericValue) :
    Except QueryError GenericValue :=
  let declared := match relation with
    | .join source => (key.find? fun entry => entry.1 = source.primaryKey).map Prod.snd
    | .aggregate _ => none
  match declared with
  | some value => .ok value
  | none =>
    match key with
    | [(_, value)] => .ok value
    | _ => .error .targetWithoutPrimaryKey

theorem localTargetValue_single (relation : Relation) (pk : ColumnName) (v : GenericValue) :
    localTargetValue relation [(pk, v)] = .ok v := by
  unfold localTargetValue
  cases relation with
  | join source =>
    simp only [List.find?_cons, List.find?_nil]
    by_cases h : pk = source.primaryKey <;> simp [h]
  | aggregate source => rfl

def singleFarKey (key : RowKey GenericValue) : Except QueryError GenericValue :=
  match key with
  | [(_, value)] => .ok value
  | _ => .error .compositeFarKey

/-- The column on a row of a table that names its parent across a relation, when the link is
on that row. -/
def linkOnRow (relation : Relation) (rowTable : TableName) : Option ColumnName :=
  match relation.key with
  | .direct foreignKey => some foreignKey
  | .through through => if rowTable = through.table then some through.leftKey else none
  | .ofParent _ => none

/-- The parents found in the database and the one the pre-image names. -/
def withOldParent (parents : List GenericValue) (before : RowImage GenericValue)
    (link : ColumnName) : List GenericValue :=
  match before.get link with
  | some old => if !old.isNull && !parents.contains old then parents ++ [old] else parents
  | none => parents

section Hops

variable {S : Type} [Postgres S] (db : Database S) (schema : DatabaseSchema)

def reverseLocal (relation : Relation) (parentTable : TableName) (parentPk column : ColumnName)
    (key : RowKey GenericValue) : Except QueryError (List GenericValue) := do
  let value ← localTargetValue relation key
  reverseQuery db schema parentTable parentPk [(column, value)]

def reverseDirect (child : TableName) (foreignKey : ColumnName) (key : RowKey GenericValue) :
    Except QueryError (List GenericValue) :=
  reverseQuery db schema child foreignKey key

def reverseThroughFar (through : Through) (key : RowKey GenericValue) :
    Except QueryError (List GenericValue) := do
  let value ← singleFarKey key
  reverseQuery db schema through.table through.leftKey [(through.rightKey, value)]

/-- A junction key that carries the left key names the parent itself. -/
def reverseThroughJunction (through : Through) (key : RowKey GenericValue) :
    Except QueryError (List GenericValue) :=
  match key.find? fun entry => entry.1 = through.leftKey with
  | some entry => .ok [entry.2]
  | none => reverseQuery db schema through.table through.leftKey key

/-- One hop: from a key of the current table to the parent keys across a relation. -/
def reverseHop (relation : Relation) (currentTable parentTable : TableName)
    (parentPk : ColumnName) (key : RowKey GenericValue) :
    Except QueryError (List GenericValue) :=
  match relation.key with
  | .direct foreignKey => reverseDirect db schema relation.table foreignKey key
  | .ofParent column => reverseLocal db schema relation parentTable parentPk column key
  | .through through =>
    if currentTable = through.table then reverseThroughJunction db schema through key
    else reverseThroughFar db schema through key

/-- The parents of a key, with the pre-image's where the link is on the changed row. -/
def hopParents (before : Option (RowImage GenericValue)) (relation : Relation)
    (currentTable parentTable : TableName) (parentPk : ColumnName)
    (key : RowKey GenericValue) : Except QueryError (List GenericValue) := do
  let parents ← reverseHop db schema relation currentTable parentTable parentPk key
  match before, linkOnRow relation currentTable with
  | some image, some link => pure (withOldParent parents image link)
  | _, _ => pure parents

end Hops

section Paths

variable {S : Type} [Postgres S] (db : Database S) (index : IndexSchema)

/-- The table and key column a hop leads to, given the relations above it. -/
def parentOf (above : List Relation) : Except QueryError (TableName × ColumnName) :=
  match above with
  | [] =>
    match index.primaryKey with
    | some pk => .ok (index.table, pk)
    | none => .error .indexWithoutPrimaryKey
  | relation :: _ => do
    let pk ← tablePrimaryKey db index.dbSchema relation.table
    pure (relation.table, pk)

/-- The hops from the changed table up to the root; the path is given from its end. -/
def climb (before : Option (RowImage GenericValue)) : TableName → List Relation →
    List (RowKey GenericValue) → Except QueryError (List (RowKey GenericValue))
  | _, [], keys => .ok keys
  | currentTable, relation :: above, keys => do
    let (parentTable, parentPk) ← parentOf db index above
    let parents ← keys.mapM
      (hopParents db index.dbSchema before relation currentTable parentTable parentPk)
    let next := parents.flatten.eraseDups.map fun value => [(parentPk, value)]
    climb none parentTable above next

/-- The root key values one path leads back to. -/
def resolvePath (table : TableName) (key : RowKey GenericValue)
    (before : Option (RowImage GenericValue)) (path : List Relation) :
    Except QueryError (List GenericValue) := do
  let keys ← climb db index before table path.reverse [key]
  pure (keys.filterMap fun key => key.head?.map Prod.snd)

end Paths

section Resolve

variable {S : Type} [Postgres S] (db : Database S) (spec : SourceSpec) (table : TableName)
  (key : RowKey GenericValue) (before : Option (RowImage GenericValue))

/-- The documents of one index a change affects. An index whose root table changed takes the
change's key; one without a primary key resolves nothing. -/
def resolveIndex (name : IndexName) (index : IndexSchema) :
    Except QueryError (List (DocumentId GenericValue)) :=
  if index.table = table then .ok [⟨name, key⟩]
  else
    let paths := findPaths table [] index.fields
    if paths = [] then .ok []
    else
      match index.primaryKey with
      | none => .ok []
      | some pk => do
        let roots ← paths.mapM (resolvePath db index table key before)
        pure (roots.flatten.eraseDups.map fun root => ⟨name, [(pk, root)]⟩)

/-- The documents a change affects. -/
def resolve : Except QueryError (List (DocumentId GenericValue)) := do
  let ids ← spec.indexes.mapM fun entry => resolveIndex db table key before entry.1 entry.2
  pure ids.flatten

end Resolve

end Flusso.Document
