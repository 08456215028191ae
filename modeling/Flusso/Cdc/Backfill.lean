import Flusso.Kernel.Model

/-! # The backfill stream

A snapshot yields one upsert per row of each table it can address: a table
without exactly one usable key column is skipped with a warning, and the stream
ends as usual.
-/

namespace Flusso.Cdc

variable {V : Type*}

/-- A row at the snapshot: the values of its key columns, and what the scan reads from the
first of them (`Null` for a type it does not decode). -/
structure Row (V : Type*) where
  key : List V
  decoded : V

/-- A table at the snapshot: the key columns the catalog names, `none` for a name that is
not a valid column name, and its rows. -/
structure TableView (V : Type*) where
  primaryKey : List (Option ColumnName)
  rows : List (Row V)

/-- The database at the snapshot. -/
abbrev View (V : Type*) := SnapshotTable → TableView V

/-- The key a row's document is known by. -/
def TableView.rowKey (t : TableView V) (r : Row V) : RowKey V :=
  (t.primaryKey.filterMap id).zip r.key

/-- The single key column of a table, if it has exactly one and its name is valid. -/
def TableView.singleKey (t : TableView V) : Option ColumnName :=
  match t.primaryKey with
  | [some column] => some column
  | _ => none

/-- Pair each requested table with its key column, skipping those without one. -/
def resolveTables (view : View V) (tables : List SnapshotTable) :
    List (SnapshotTable × ColumnName) :=
  tables.filterMap fun table => (view table).singleKey.map fun pk => (table, pk)

/-- The rows the snapshot stream yields. -/
def snapshotRows (view : View V) (tables : List SnapshotTable) : List (TableName × RowKey V) :=
  (resolveTables view tables).flatMap fun (table, pk) =>
    (view table).rows.map fun row => (table.table, [(pk, row.decoded)])

theorem exists_of_isSome_singleKey {t : TableView V} (h : t.singleKey.isSome = true) :
    ∃ column, t.primaryKey = [some column] := by
  unfold TableView.singleKey at h
  split at h
  · next column hkey => exact ⟨column, hkey⟩
  · cases h

/-- The scan can address every row of the table by its key. -/
structure TableView.Pageable (t : TableView V) : Prop where
  single : ∃ column, t.primaryKey = [some column]
  decodes : ∀ r ∈ t.rows, r.key = [r.decoded]

instance [DecidableEq V] (t : TableView V) : Decidable t.Pageable :=
  decidable_of_iff (t.singleKey.isSome ∧ ∀ r ∈ t.rows, r.key = [r.decoded])
    ⟨fun ⟨hkey, hrows⟩ => ⟨exists_of_isSome_singleKey hkey, hrows⟩, fun h => ⟨by
      obtain ⟨column, hkey⟩ := h.single
      simp [TableView.singleKey, hkey], h.decodes⟩⟩

theorem mem_snapshotRows {view : View V} {tables : List SnapshotTable} {table : SnapshotTable}
    {row : Row V} (htable : table ∈ tables) (hpage : (view table).Pageable)
    (hrow : row ∈ (view table).rows) :
    (table.table, (view table).rowKey row) ∈ snapshotRows view tables := by
  obtain ⟨column, hkey⟩ := hpage.single
  have hrowKey : (view table).rowKey row = [(column, row.decoded)] := by
    simp [TableView.rowKey, hkey, hpage.decodes row hrow]
  rw [hrowKey, snapshotRows, List.mem_flatMap]
  refine ⟨(table, column), ?_, List.mem_map.mpr ⟨row, hrow, rfl⟩⟩
  exact List.mem_filterMap.mpr ⟨table, htable, by simp [TableView.singleKey, hkey]⟩

end Flusso.Cdc
