import Flusso.Document.Climbing
import Mathlib.Data.List.Nodup

/-! # Row changes and the events they are captured as

PostgreSQL sends the text of a row's columns: all of a new version, save large
values it kept, and the replica identity's of an old one. The decoder keys the
change and keeps the old version as a pre-image where that adds to the key.
-/

namespace Flusso.Document

open Cdc Pgoutput

section Tuples

variable {S : Type} [Postgres S] (rel : Pgoutput.Relation)

def cellOf (s : S) : Cell :=
  match Postgres.output s with
  | some text => .text text
  | none => .null

/-- The value a column's cell is read as. -/
def cellValue (column : Pgoutput.Column) (s : S) : GenericValue :=
  match Postgres.output s with
  | some text => typedValue text column.typeOid
  | none => .null

/-- A new row version; values kept out of line and not changed are not sent again. -/
def newTuple (kept : List ColumnName) (row : Row S) : Tuple :=
  rel.columns.map fun column =>
    if column.name ∈ kept then .unchanged else cellOf (row column.name)

/-- An old row version; only the identity columns hold values. -/
def oldTuple (row : Row S) : Tuple :=
  rel.columns.map fun column => if column.isKey then cellOf (row column.name) else .null

/-- A change of one row. The old version of an update is sent when an identity column changed,
and under a full identity. -/
inductive RowChange (S : Type) where
  | insert (new : Row S)
  | update (old new : Row S) (oldSent : Bool) (kept : List ColumnName)
  | delete (old : Row S)

namespace RowChange

def old : RowChange S → Option (Row S)
  | insert _ => none
  | update old _ _ _ | delete old => some old

def new : RowChange S → Option (Row S)
  | insert new | update _ new _ _ => some new
  | delete _ => none

/-- The change events a row change is captured as. -/
def events : RowChange S → Except Cdc.SourceError (List (ChangeEvent GenericValue))
  | insert new => insertChanges rel (newTuple rel [] new)
  | update old new oldSent kept =>
    updateChanges rel (if oldSent then some (oldTuple rel old) else none) (newTuple rel kept new)
  | delete old => deleteChanges rel (oldTuple rel old)

/-- What PostgreSQL and a stream of single rows keep to: an old version not sent had the same
identity columns, and the key of a new version is sent. -/
def Sent : RowChange S → Prop
  | insert _ | delete _ => True
  | update old new oldSent kept =>
    (oldSent = false → ∀ column ∈ rel.columns, column.isKey = true →
      old column.name = new column.name) ∧
    ∀ column ∈ rel.columns, rel.keys column = true → column.name ∉ kept

end RowChange

/-- The database after a change of one row. -/
structure Applied (db db' : Database S) (schema : DatabaseSchema) (table : TableName)
    (change : RowChange S) : Prop where
  elsewhere : ∀ s t, ¬ (s = schema ∧ t = table) → db' s t = db s t
  here : ∃ before after rows rows', db schema table = some before ∧
    db' schema table = some after ∧ after.sqlType = before.sqlType ∧
    after.primaryKey = before.primaryKey ∧ before.rows = rows ++ change.old.toList ++ rows' ∧
    after.rows = rows ++ change.new.toList ++ rows'

/-- A relation as announced and keyed: its columns have names of their own, and its primary key
is the table's and carried by the replica identity. -/
structure Announced (db : Database S) (schema : DatabaseSchema) (table : TableName) : Prop where
  table_eq : rel.table = table
  nodup : (rel.columns.map Pgoutput.Column.name).Nodup
  primaryKey : ∃ t, db schema table = some t ∧ t.primaryKey = rel.primaryKey
  carried : rel.primaryKeyIsCarried = true

/-- The key the decoder gives a row. -/
def keyOf (row : Row S) : RowKey GenericValue :=
  (rel.columns.filter fun column => rel.keys column).map fun column =>
    (column.name, cellValue column (row column.name))

/-- The pre-image the decoder keeps of an old row. -/
def imageOf (row : Row S) : Option (RowImage GenericValue) :=
  if (rel.columns.filter Pgoutput.Column.isKey).any fun column => !rel.keys column then
    some ((rel.columns.filter Pgoutput.Column.isKey).map fun column =>
      (column.name, cellValue column (row column.name)))
  else none

end Tuples

section Decoding

variable {S : Type} [Postgres S] {rel : Pgoutput.Relation} {row : Row S} {kept : List ColumnName}

theorem mem_keyOf {entry : ColumnName × GenericValue} : entry ∈ keyOf rel row ↔
    ∃ column ∈ rel.columns, rel.keys column = true ∧
      entry = (column.name, cellValue column (row column.name)) := by
  simp only [keyOf, List.mem_map, List.mem_filter]
  constructor
  · rintro ⟨column, ⟨hmem, hkey⟩, rfl⟩
    exact ⟨column, hmem, hkey, rfl⟩
  · rintro ⟨column, hmem, hkey, rfl⟩
    exact ⟨column, ⟨hmem, hkey⟩, rfl⟩

/-- The value a decoded key cell stands for. -/
def keyCell (column : Pgoutput.Column) : Cell → GenericValue
  | .text text => typedValue text column.typeOid
  | .null | .unchanged => .null

theorem rowKey_eq (tuple : Tuple) : rowKey rel tuple =
    (let pairs := ((rel.columns.zip tuple).filter fun entry => rel.keys entry.1).map fun entry =>
      (entry.1.name, keyCell entry.1 entry.2)
    if pairs.isEmpty then .error (.keyless rel.table) else .ok pairs) := by
  have hcells : (fun entry : Pgoutput.Column × Cell => (entry.1.name, keyCell entry.1 entry.2)) =
      fun entry => (entry.1.name, match entry.2 with
        | .text text => CellValue.typedValue text entry.1.typeOid
        | .null => CellValue.null
        | .unchanged => CellValue.null) := by
    funext ⟨column, cell⟩
    cases cell <;> rfl
  rw [hcells]
  rfl

theorem rowKey_newTuple (hsent : ∀ column ∈ rel.columns, rel.keys column = true →
    column.name ∉ kept) (hne : keyOf rel row ≠ []) :
    rowKey rel (newTuple rel kept row) = .ok (keyOf rel row) := by
  have hpairs : (((rel.columns.zip (newTuple rel kept row)).filter fun entry =>
      rel.keys entry.1).map fun entry => (entry.1.name, keyCell entry.1 entry.2)) =
      keyOf rel row := by
    simp only [newTuple, ← List.map_prod_left_eq_zip, List.filter_map, List.map_map, keyOf]
    apply List.map_congr_left
    intro column hcolumn
    obtain ⟨hmem, hkey⟩ := List.mem_filter.mp hcolumn
    simp only [Function.comp_apply, if_neg (hsent column hmem hkey), cellOf, cellValue]
    cases Postgres.output (row column.name) <;> rfl
  simp only [rowKey_eq, hpairs, List.isEmpty_iff, if_neg hne]

theorem rowKey_oldTuple (hkeys : ∀ column ∈ rel.columns, rel.keys column = true →
    column.isKey = true) (hne : keyOf rel row ≠ []) :
    rowKey rel (oldTuple rel row) = .ok (keyOf rel row) := by
  have hpairs : (((rel.columns.zip (oldTuple rel row)).filter fun entry =>
      rel.keys entry.1).map fun entry => (entry.1.name, keyCell entry.1 entry.2)) =
      keyOf rel row := by
    simp only [oldTuple, ← List.map_prod_left_eq_zip, List.filter_map, List.map_map, keyOf]
    apply List.map_congr_left
    intro column hcolumn
    obtain ⟨hmem, hkey⟩ := List.mem_filter.mp hcolumn
    simp only [Function.comp_apply, hkeys column hmem hkey, if_true, cellOf, cellValue]
    cases Postgres.output (row column.name) <;> rfl
  simp only [rowKey_eq, hpairs, List.isEmpty_iff, if_neg hne]

theorem carried_oldTuple : carried rel (oldTuple rel row) =
    (rel.columns.filter Pgoutput.Column.isKey).map fun column =>
      (column, cellValue column (row column.name)) := by
  simp only [carried, oldTuple, ← List.map_prod_left_eq_zip, List.filterMap_map]
  rw [← List.filterMap_eq_map, List.filterMap_filter]
  apply List.filterMap_congr
  intro column _
  simp only [Function.comp_apply, cellOf, cellValue]
  cases column.isKey
  · rfl
  · cases Postgres.output (row column.name) <;> rfl

theorem preImage_oldTuple : preImage rel (oldTuple rel row) = imageOf rel row := by
  simp only [preImage, carried_oldTuple, imageOf, List.any_map, List.map_map]
  rfl

end Decoding

section Applied

variable {S : Type} {db db' : Database S} {schema : DatabaseSchema} {table : TableName}
  {change : RowChange S}

/-- A row version a change replaces or leaves. -/
def RowChange.Version (change : RowChange S) (row : Row S) : Prop :=
  change.old = some row ∨ change.new = some row

theorem Applied.rowsOf_elsewhere (h : Applied db db' schema table change) {t : TableName}
    (ht : t ≠ table) : rowsOf db' schema t = rowsOf db schema t := by
  have hne : ¬ (schema = schema ∧ t = table) := fun he => ht he.2
  rw [rowsOf, rowsOf, h.elsewhere schema t hne]

theorem Applied.new_mem (h : Applied db db' schema table change) {new : Row S}
    (hnew : change.new = some new) : new ∈ rowsOf db' schema table := by
  obtain ⟨before, after, rows, rows', -, hafter, -, -, -, hrows⟩ := h.here
  simp [rowsOf, hafter, hrows, hnew]

theorem Applied.tableOf (h : Applied db db' schema table change) (t : TableName) :
    (tableOf db' schema t).map Table.primaryKey = (tableOf db schema t).map Table.primaryKey := by
  by_cases ht : t = table
  · obtain ⟨before, after, rows, rows', hbefore, hafter, -, hpk, -, -⟩ := h.here
    subst ht
    simp only [Document.tableOf, hbefore, hafter, Except.map, hpk]
  · simp only [Document.tableOf, h.elsewhere schema t fun ⟨_, he⟩ => ht he]

theorem Applied.tablePrimaryKey (h : Applied db db' schema table change) (t : TableName) :
    tablePrimaryKey db' schema t = tablePrimaryKey db schema t := by
  have hpk := h.tableOf t
  simp only [Document.tablePrimaryKey]
  cases hafter : Document.tableOf db' schema t <;> cases hbefore : Document.tableOf db schema t <;>
    simp_all [Except.map, bind, Except.bind]

theorem Applied.survives (h : Applied db db' schema table change) {old : Row S}
    (hold : change.old = some old) : Survives db db' schema table old := by
  constructor
  · intro t r hr
    by_cases ht : t = table
    · subst ht
      obtain ⟨before, after, rows, rows', hbefore, hafter, -, -, hrows, hrows'⟩ := h.here
      simp only [rowsOf, hbefore, hafter, hrows, hrows', hold, Option.map_some, Option.getD_some,
        Option.toList_some, List.mem_append, List.mem_singleton, true_and] at hr ⊢
      rcases hr with (hr | hr) | hr
      · exact Or.inl (Or.inl (Or.inl hr))
      · exact Or.inr hr
      · exact Or.inl (Or.inr hr)
    · exact Or.inl (by rwa [h.rowsOf_elsewhere ht])
  · exact h.tablePrimaryKey

theorem Announced.applied {rel : Pgoutput.Relation} (ha : Announced rel db schema table)
    (h : Applied db db' schema table change) : Announced rel db' schema table := by
  refine ⟨ha.table_eq, ha.nodup, ?_, ha.carried⟩
  obtain ⟨before, after, -, -, hbefore, hafter, -, hpk, -, -⟩ := h.here
  obtain ⟨t, ht, htpk⟩ := ha.primaryKey
  rw [hbefore] at ht
  cases ht
  exact ⟨after, hafter, hpk.trans htpk⟩

end Applied

section Announced

variable {S : Type} [Postgres S] {rel : Pgoutput.Relation} {db : Database S}
  {schema : DatabaseSchema} {table : TableName}

omit [Postgres S] in
theorem Announced.keyed_iff (ha : Announced rel db schema table) {column : Pgoutput.Column} :
    rel.keys column = true ↔ column.name ∈ rel.primaryKey := by
  simp [Pgoutput.Relation.keys, ha.carried]

omit [Postgres S] in
theorem Announced.exists_column (ha : Announced rel db schema table) {pk : ColumnName}
    (hpk : pk ∈ rel.primaryKey) : ∃ column ∈ rel.columns, column.isKey = true ∧ column.name = pk := by
  have h := ha.carried
  simp only [Pgoutput.Relation.primaryKeyIsCarried, Bool.and_eq_true, List.all_eq_true,
    List.any_eq_true, decide_eq_true_eq] at h
  obtain ⟨column, hmem, hkey, hname⟩ := h.2 pk hpk
  exact ⟨column, hmem, hkey, hname⟩

omit [Postgres S] in
theorem Announced.column_unique (ha : Announced rel db schema table)
    {column column' : Pgoutput.Column} (hmem : column ∈ rel.columns)
    (hmem' : column' ∈ rel.columns) (hname : column.name = column'.name) : column = column' :=
  List.inj_on_of_nodup_map ha.nodup hmem hmem' hname

omit [Postgres S] in
theorem Announced.isKey_of_keys (ha : Announced rel db schema table) :
    ∀ column ∈ rel.columns, rel.keys column = true → column.isKey = true := by
  intro column hmem hkeys
  obtain ⟨column', hmem', hkey, hname⟩ := ha.exists_column (ha.keyed_iff.mp hkeys)
  rw [ha.column_unique hmem hmem' hname.symm]
  exact hkey

theorem Announced.keyOf_ne_nil (ha : Announced rel db schema table) (row : Row S) :
    keyOf rel row ≠ [] := by
  have h := ha.carried
  simp only [Pgoutput.Relation.primaryKeyIsCarried, Bool.and_eq_true, Bool.not_eq_true',
    List.isEmpty_eq_false_iff] at h
  obtain ⟨pk, hpk⟩ := List.exists_mem_of_ne_nil _ h.1
  obtain ⟨column, hmem, -, rfl⟩ := ha.exists_column hpk
  exact List.ne_nil_of_mem (mem_keyOf.mpr ⟨column, hmem, ha.keyed_iff.mpr hpk, rfl⟩)

theorem Announced.keyOf_single (ha : Announced rel db schema table) {k : ColumnName}
    (hk : tablePrimaryKey db schema table = .ok k) (row : Row S) :
    ∃ column ∈ rel.columns, column.name = k ∧ rel.keys column = true ∧
      keyOf rel row = [(k, cellValue column (row k))] := by
  obtain ⟨t, ht, hprimary⟩ := ha.primaryKey
  have hsingle : rel.primaryKey = [k] := by
    simp only [tablePrimaryKey, tableOf, ht, bind, Except.bind] at hk
    split at hk
    · next hkey =>
      cases hk
      rw [← hprimary, hkey]
    · cases hk
    · cases hk
  obtain ⟨column, hmem, -, hname⟩ := ha.exists_column (hsingle ▸ List.mem_singleton.mpr rfl)
  have hkeys : rel.keys column = true :=
    ha.keyed_iff.mpr (by rw [hsingle, hname]; exact List.mem_singleton.mpr rfl)
  have hfilter : rel.columns.filter (fun c => rel.keys c) = [column] := by
    apply List.perm_singleton.mp
    apply (List.perm_ext_iff_of_nodup ((List.Nodup.of_map _ ha.nodup).filter _)
      (List.nodup_singleton _)).mpr
    intro c
    simp only [List.mem_filter, List.mem_singleton, ha.keyed_iff, hsingle]
    constructor
    · rintro ⟨hc, hcname⟩
      exact ha.column_unique hc hmem (hcname.trans hname.symm)
    · rintro rfl
      exact ⟨hmem, hname⟩
  exact ⟨column, hmem, hname, hkeys, by rw [keyOf, hfilter, ← hname]; rfl⟩

/-- The events of a change: each is keyed by a version of the row, one by the new version, and
one by the old with its pre-image, unless no identity column changed. -/
theorem Announced.events_spec (ha : Announced rel db schema table) {change : RowChange S}
    (hsent : change.Sent rel) :
    ∃ events, change.events rel = .ok events ∧
      (∀ event ∈ events, event.table = table ∧
        (∃ row, (change.old = some row ∨ change.new = some row) ∧ event.key = keyOf rel row) ∧
        (event.before = none ∨ ∃ old, change.old = some old ∧ event.before = imageOf rel old)) ∧
      (∀ new, change.new = some new → ∃ event ∈ events, event.key = keyOf rel new) ∧
      ∀ old, change.old = some old →
        (∃ event ∈ events, (keyOf rel old == event.key) = true ∧
          event.before = imageOf rel old) ∨
        ∃ new, change.new = some new ∧ ∀ column ∈ rel.columns, column.isKey = true →
          old column.name = new column.name := by
  have hnew : ∀ kept row, (∀ column ∈ rel.columns, rel.keys column = true →
      column.name ∉ kept) → rowKey rel (newTuple rel kept row) = .ok (keyOf rel row) :=
    fun kept row h => rowKey_newTuple (S := S) h (ha.keyOf_ne_nil row)
  have hold : ∀ row : Row S, rowKey rel (oldTuple rel row) = .ok (keyOf rel row) :=
    fun row => rowKey_oldTuple ha.isKey_of_keys (ha.keyOf_ne_nil row)
  cases change with
  | insert new =>
    refine ⟨[.upsert rel.table (keyOf rel new) none], ?_, ?_, ?_, nofun⟩
    · simp only [RowChange.events, insertChanges, hnew [] new (fun _ _ _ => List.not_mem_nil)]
      rfl
    · intro event hevent
      cases List.mem_singleton.mp hevent
      exact ⟨ha.table_eq, ⟨new, Or.inr rfl, rfl⟩, Or.inl rfl⟩
    · rintro _ ⟨⟩
      exact ⟨_, List.mem_singleton.mpr rfl, rfl⟩
  | delete old =>
    refine ⟨[.delete rel.table (keyOf rel old) (imageOf rel old)], ?_, ?_, nofun, ?_⟩
    · simp only [RowChange.events, deleteChanges, hold, preImage_oldTuple]
      rfl
    · intro event hevent
      cases List.mem_singleton.mp hevent
      exact ⟨ha.table_eq, ⟨old, Or.inl rfl, rfl⟩, Or.inr ⟨old, rfl, rfl⟩⟩
    · rintro _ ⟨⟩
      exact Or.inl ⟨_, List.mem_singleton.mpr rfl, BEq.rfl, rfl⟩
  | update old new oldSent kept =>
    obtain ⟨hunsent, hkept⟩ := hsent
    cases oldSent with
    | false =>
      refine ⟨[.upsert rel.table (keyOf rel new) none], ?_, ?_, ?_, ?_⟩
      · simp only [RowChange.events, updateChanges, hnew kept new hkept]
        rfl
      · intro event hevent
        cases List.mem_singleton.mp hevent
        exact ⟨ha.table_eq, ⟨new, Or.inr rfl, rfl⟩, Or.inl rfl⟩
      · rintro _ ⟨⟩
        exact ⟨_, List.mem_singleton.mpr rfl, rfl⟩
      · rintro _ ⟨⟩
        exact Or.inr ⟨new, rfl, hunsent rfl⟩
    | true =>
      by_cases hkey : (keyOf rel old == keyOf rel new) = true
      · refine ⟨[.upsert rel.table (keyOf rel new) (imageOf rel old)], ?_, ?_, ?_, ?_⟩
        · simp only [RowChange.events, updateChanges, hnew kept new hkept, hold, if_true,
            preImage_oldTuple, bind, Except.bind, hkey]
          rfl
        · intro event hevent
          cases List.mem_singleton.mp hevent
          exact ⟨ha.table_eq, ⟨new, Or.inr rfl, rfl⟩, Or.inr ⟨old, rfl, rfl⟩⟩
        · rintro _ ⟨⟩
          exact ⟨_, List.mem_singleton.mpr rfl, rfl⟩
        · rintro _ ⟨⟩
          exact Or.inl ⟨_, List.mem_singleton.mpr rfl, hkey, rfl⟩
      · refine ⟨[.delete rel.table (keyOf rel old) (imageOf rel old),
          .upsert rel.table (keyOf rel new) (imageOf rel old)], ?_, ?_, ?_, ?_⟩
        · simp only [RowChange.events, updateChanges, hnew kept new hkept, hold, if_true,
            preImage_oldTuple, bind, Except.bind, hkey]
          rfl
        · intro event hevent
          rcases List.mem_cons.mp hevent with rfl | hevent
          · exact ⟨ha.table_eq, ⟨old, Or.inl rfl, rfl⟩, Or.inr ⟨old, rfl, rfl⟩⟩
          · cases List.mem_singleton.mp hevent
            exact ⟨ha.table_eq, ⟨new, Or.inr rfl, rfl⟩, Or.inr ⟨old, rfl, rfl⟩⟩
        · rintro _ ⟨⟩
          exact ⟨_, List.mem_cons_of_mem _ (List.mem_singleton.mpr rfl), rfl⟩
        · rintro _ ⟨⟩
          exact Or.inl ⟨_, List.mem_cons_self, BEq.rfl, rfl⟩

end Announced

end Flusso.Document
