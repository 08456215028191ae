import Flusso.Document.Completeness
import Mathlib.Data.Fintype.EquivFin
import Mathlib.Data.List.Dedup

/-! # Relations that lead back to the root table

A row of the root table that another document reads is a root itself, and its
change resolves to its own document alone. A database of text columns with two
rows in the root table shows it for any relation path back to the root table.
-/

namespace Flusso.Document

open Cdc Pgoutput

section Textual

/-- Every column of every table is text, every table has one primary-key column. -/
def Textual (db : Database (Option String)) : Prop :=
  ∀ schema table, ∃ t, db schema table = some t ∧ (∀ column, t.sqlType column = some "text") ∧
    ∃ pk, t.primaryKey = [pk]

variable {db : Database (Option String)} {index : IndexSchema} {rel : Pgoutput.Relation}
  {row : Row (Option String)}

theorem Textual.columnType (h : Textual db) (schema : DatabaseSchema) (table : TableName)
    (column : ColumnName) : columnType db schema table column = .ok "text" := by
  obtain ⟨t, ht, htype, -⟩ := h schema table
  simp only [Document.columnType, tableOf, ht, bind, Except.bind, htype]

theorem Textual.exists_primaryKey (h : Textual db) (schema : DatabaseSchema) (table : TableName) :
    ∃ pk, tablePrimaryKey db schema table = .ok pk := by
  obtain ⟨t, ht, -, pk, hpk⟩ := h schema table
  exact ⟨pk, by simp only [tablePrimaryKey, tableOf, ht, bind, Except.bind, hpk]⟩

theorem readsAs_text (text : String) : ReadsAs "text" (.string text) (some text) := by
  intro w hw
  cases w with
  | string other =>
    have htext : text = other := by
      change GenericValue.eq (.string text) (.string other) = true at hw
      simpa [GenericValue.eq] using hw
    subst htext
    exact ⟨rfl, some text, rfl, by simp [Postgres.equals]⟩
  | _ => cases hw

theorem legible_text (s : Option String) :
    Legible "text" (Postgres.decodeColumn s) s := by
  cases s with
  | none => exact Or.inl ⟨rfl, fun u => rfl⟩
  | some text => exact Or.inr ⟨rfl, readsAs_text text⟩

theorem Textual.columnLegible (h : Textual db) (schema : DatabaseSchema)
    (source target : TableName × ColumnName) : ColumnLegible db schema source target "text" :=
  ⟨⟨_, h.columnType _ _ _⟩, h.columnType _ _ _, fun row _ => legible_text (row source.2)⟩

theorem cellValue_text {column : Pgoutput.Column} (htype : column.typeOid = 25)
    (s : Option String) : cellValue column s = Postgres.decodeColumn s := by
  cases s with
  | none => rfl
  | some text =>
    change typedValue text column.typeOid = .string text
    rw [htype]
    rfl

theorem Textual.climbable (h : Textual db) (hpk : index.primaryKey.isSome = true)
    {path : List Relation} (hself : ∀ relation ∈ path, ∀ through,
      relation.key = .through through → relation.table ≠ through.table) :
    Climbable db index path := by
  induction path with
  | nil => trivial
  | cons relation above ih =>
    refine ⟨hself relation List.mem_cons_self, ?_,
      ih fun r hr => hself r (List.mem_cons_of_mem _ hr)⟩
    obtain ⟨parent, hparent⟩ : ∃ parent, parentOf db index above = .ok parent := by
      cases above with
      | nil =>
        obtain ⟨pk, hpk⟩ := Option.isSome_iff_exists.mp hpk
        exact ⟨(index.table, pk), by simp only [parentOf, hpk]⟩
      | cons relation' above =>
        obtain ⟨pk, hpk⟩ := h.exists_primaryKey index.dbSchema relation'.table
        exact ⟨(relation'.table, pk), by simp only [parentOf, hpk]; rfl⟩
    exact ⟨parent.1, parent.2, "text", hparent, h.columnLegible _ _ _⟩

theorem Textual.keyLegible (h : Textual db) (htext : ∀ column ∈ rel.columns,
      cellValue column (row column.name) = Postgres.decodeColumn (row column.name))
    (hkeys : ∀ column ∈ rel.columns, rel.keys column = true → (row column.name).isSome = true) :
    KeyLegible db index rel row := by
  intro column hmem hkey
  obtain ⟨text, hrow⟩ := Option.isSome_iff_exists.mp (hkeys column hmem hkey)
  refine ⟨"text", h.columnType _ _ _, ?_⟩
  rw [htext column hmem, hrow]
  exact readsAs_text text

/-- A database of text columns can be climbed from any table, where keys are not null. -/
theorem Textual.ready (h : Textual db) {versions : Row (Option String) → Prop}
    (htext : ∀ row, versions row → ∀ column ∈ rel.columns,
      cellValue column (row column.name) = Postgres.decodeColumn (row column.name))
    (hkeys : ∀ row, versions row → ∀ column ∈ rel.columns, rel.keys column = true →
      (row column.name).isSome = true)
    (hpks : ∀ pk, tablePrimaryKey db index.dbSchema rel.table = .ok pk →
      ∀ row, versions row → (row pk).isSome = true)
    (hshape : ∀ path ∈ findPaths rel.table [] index.fields, index.primaryKey.isSome = true ∧
      ∀ relation ∈ path, ∀ through, relation.key = .through through →
        relation.table ≠ through.table) : Ready db index rel versions := by
  refine ⟨fun _ row hrow => h.keyLegible (htext row hrow) (hkeys row hrow), ?_⟩
  intro _ path hpath relation above hreverse
  obtain ⟨hpk, hself⟩ := hshape path hpath
  refine ⟨h.climbable hpk fun r hr => hself r ?_, h.exists_primaryKey _ _, ?_⟩
  · rw [← List.mem_reverse, hreverse]
    exact hr
  · intro parentTable parentPk parentType _ hparentType row hrow
    rw [h.columnType] at hparentType
    cases hparentType
    refine ⟨h.keyLegible (htext row hrow) (hkeys row hrow), ?_, ?_⟩
    · intro _ pk hpk
      refine ⟨"text", h.columnType _ _ _, fun column hmem hname => ?_⟩
      obtain ⟨text, hrow'⟩ := Option.isSome_iff_exists.mp (hpks pk hpk row hrow)
      rw [← hname, htext row hrow column hmem, hname, hrow']
      exact readsAs_text text
    · rintro link _ column hmem rfl
      rw [htext row hrow column hmem]
      exact legible_text (row column.name)

end Textual

section Twins

variable (key : ColumnName) (schema : DatabaseSchema) (table : TableName)

/-- Two rows that agree but for one column. -/
def original : Row (Option String) := fun _ => some "a"

def twin : Row (Option String) := fun column => if column = key then some "b" else some "a"

/-- A database of one row in every table, save the given rows in one. -/
def withRows (rows : List (Row (Option String))) : Database (Option String) := fun s t =>
  some ⟨fun _ => some "text", [key], if s = schema ∧ t = table then rows else [original]⟩

variable {key schema table} {rows : List (Row (Option String))}

theorem equals_original (column column' : ColumnName) :
    Postgres.equals (original column) (original column') = true := by
  simp [Postgres.equals, original]

theorem withRows_textual : Textual (withRows key schema table rows) := fun _ _ =>
  ⟨_, rfl, fun _ => rfl, key, rfl⟩

theorem withRows_present {column : ColumnName}
    (hrows : ∀ row ∈ rows, (row column).isSome = true) (s : DatabaseSchema) (t : TableName) :
    ∀ row ∈ rowsOf (withRows key schema table rows) s t,
      Postgres.equals (row column) (row column) = true := by
  intro row hrow
  have hsome : (row column).isSome = true := by
    simp only [rowsOf, withRows, Option.map_some, Option.getD_some] at hrow
    split at hrow
    · exact hrows row hrow
    · cases List.mem_singleton.mp hrow
      rfl
  simp [Postgres.equals, hsome]

theorem original_mem (hrows : original ∈ rows) (s : DatabaseSchema) (t : TableName) :
    original ∈ rowsOf (withRows key schema table rows) s t := by
  simp only [rowsOf, withRows, Option.map_some, Option.getD_some]
  split
  · exact hrows
  · exact List.mem_singleton.mpr rfl

theorem linked_original {relation : Relation} {pk : ColumnName} {parent : Row (Option String)}
    {s : DatabaseSchema} (hjunction : ∀ through, relation.key = .through through →
      original ∈ rowsOf (withRows key schema table rows) s through.table)
    (hpk : parent pk = some "a")
    (hcolumn : ∀ column, relation.key = .ofParent column → parent column = some "a") :
    Linked (withRows key schema table rows) s relation (some pk) parent original := by
  have hequals : ∀ (column : ColumnName) {v : Option String}, v = some "a" →
      Postgres.equals (original column) v = true := by
    rintro column _ rfl
    simp [Postgres.equals, original]
  unfold Linked
  cases hkey : relation.key with
  | ofParent column => exact ⟨key, rfl, hequals key (hcolumn column hkey)⟩
  | direct foreignKey => exact ⟨pk, rfl, hequals foreignKey hpk⟩
  | through through =>
    exact ⟨pk, rfl, key, rfl, original, hjunction through hkey, hequals _ rfl, hequals _ hpk⟩

theorem touches_original (hrows : original ∈ rows) {relation : Relation} {pk : ColumnName}
    {parent : Row (Option String)} {t : TableName} (hhit : hits relation t = true)
    (hpk : parent pk = some "a")
    (hcolumn : ∀ column, relation.key = .ofParent column → parent column = some "a")
    (s : DatabaseSchema) :
    Touches (withRows key schema table rows) s relation (some pk) parent t original := by
  by_cases htable : relation.table = t
  · exact Or.inl ⟨htable, linked_original (fun _ _ => original_mem hrows s _) hpk hcolumn⟩
  · cases hkey : relation.key with
    | through through =>
      refine Or.inr ⟨through, hkey, ?_, pk, rfl, by simp [Postgres.equals, original, hpk]⟩
      simpa [hits, hkey, htable] using hhit
    | direct foreignKey => simp [hits, hkey, htable] at hhit
    | ofParent column => simp [hits, hkey, htable] at hhit

theorem reads_original (hrows : original ∈ rows) (s : DatabaseSchema) {t : TableName}
    (field : Field) : ∀ {above path : List Relation} {fields : List Field} {pk : ColumnName}
    {parent : Row (Option String)}, path ∈ fieldPaths t above field → field ∈ fields →
    parent pk = some "a" →
    (∀ relation ∈ path, ∀ column, relation.key = .ofParent column → parent column = some "a") →
    Reads (withRows key schema table rows) s t original fields (some pk) parent := by
  induction field using Field.induct with
  | node field ih =>
    intro above path fields pk parent hpath hmem hpk hcolumns
    cases field with
    | group name options below =>
      rw [fieldPaths] at hpath
      obtain ⟨g, hg, hpath⟩ := mem_findPaths.mp hpath
      exact .group hmem (ih g hg hpath hg hpk hcolumns)
    | join name options source below =>
      rw [fieldPaths, List.mem_append] at hpath
      rcases hpath with hpath | hpath
      · split at hpath
        · next hhit =>
          cases List.mem_singleton.mp hpath
          exact .here hmem rfl (touches_original hrows hhit hpk
            (hcolumns (.join source) (by simp)) s)
        · cases hpath
      · obtain ⟨g, hg, hpath⟩ := mem_findPaths.mp hpath
        have hsource : Relation.join source ∈ path := by
          obtain ⟨rest, relation, rfl, -⟩ := hits_of_mem_fieldPaths g hpath
          simp
        refine .deeper hmem (original_mem hrows s source.table)
          (linked_original (fun _ _ => original_mem hrows s _) hpk (hcolumns _ hsource))
          (rfl : _ = Except.ok key) ?_
        exact ih g hg hpath hg rfl fun _ _ _ _ => rfl
    | aggregate name options source =>
      rw [fieldPaths] at hpath
      split at hpath
      · next hhit =>
        cases List.mem_singleton.mp hpath
        exact .here hmem rfl (touches_original hrows hhit hpk
          (hcolumns (.aggregate source) (by simp)) s)
      · cases hpath
    | column => cases hpath
    | geo => cases hpath
    | constant => cases hpath

end Twins

section Necessity

theorem exists_fresh (columns : List ColumnName) : ∃ column, column ∉ columns := by
  have hinj : Function.Injective ColumnName.mk := fun _ _ h => ColumnName.mk.inj h
  have : Infinite ColumnName := Infinite.of_injective _ hinj
  obtain ⟨column, h⟩ := Infinite.exists_notMem_finset columns.toFinset
  exact ⟨column, by simpa using h⟩

/-- The indexes can be resolved at all: one with relations has a primary key, no relation goes
through its own table, and no index reads a table named as the root table of another schema. -/
structure Shaped (spec : SourceSpec) : Prop where
  path : ∀ entry ∈ spec.indexes, ∀ table, ∀ path ∈ findPaths table [] entry.2.fields,
    entry.2.primaryKey.isSome = true ∧ ∀ relation ∈ path, ∀ through,
      relation.key = .through through → relation.table ≠ through.table
  separate : ∀ entry ∈ spec.indexes, ∀ entry' ∈ spec.indexes,
    ReadsTable entry.2 entry'.2.table → entry.2.dbSchema = entry'.2.dbSchema

/-- The link columns the relations of a spec read on the rows of a table. -/
def linkColumns (spec : SourceSpec) (table : TableName) : List ColumnName :=
  spec.indexes.flatMap fun entry => (findPaths table [] entry.2.fields).flatMap fun path =>
    path.filterMap fun relation => linkOnRow relation table

/-- A table keyed by one column whose identity also carries the link columns. -/
def linkedTable (spec : SourceSpec) (schema : DatabaseSchema) (table : TableName)
    (key : ColumnName) : Pgoutput.Relation where
  oid := 0
  dbSchema := schema
  table := table
  columns := (key :: (linkColumns spec table).dedup).map fun column => ⟨column, true, 25⟩
  primaryKey := [key]

variable {spec : SourceSpec} {schema : DatabaseSchema} {table : TableName} {key : ColumnName}

theorem linkedTable_carried : (linkedTable spec schema table key).primaryKeyIsCarried = true := by
  simp [linkedTable, Pgoutput.Relation.primaryKeyIsCarried]

theorem linkedTable_keys {column : Pgoutput.Column} :
    (linkedTable spec schema table key).keys column = true ↔ column.name = key := by
  simp only [Pgoutput.Relation.keys, linkedTable_carried, if_true]
  simp [linkedTable]

theorem linksCarried_linkedTable (hkey : key ∉ linkColumns spec table) :
    LinksCarried spec (linkedTable spec schema table key) := by
  intro entry hentry path hpath relation above hreverse link hlink
  have hmem : link ∈ linkColumns spec table := by
    refine List.mem_flatMap.mpr ⟨entry, hentry, List.mem_flatMap.mpr ⟨path, hpath, ?_⟩⟩
    refine List.mem_filterMap.mpr ⟨relation, ?_, hlink⟩
    rw [← List.mem_reverse, hreverse]
    exact List.mem_cons_self
  have hcolumn : (⟨link, true, 25⟩ : Pgoutput.Column) ∈
      (linkedTable spec schema table key).columns :=
    List.mem_map.mpr ⟨link, List.mem_cons_of_mem _ (List.mem_dedup.mpr hmem), rfl⟩
  refine ⟨⟨_, hcolumn, rfl, rfl⟩, fun _ _ => ⟨_, hcolumn, rfl, ?_⟩⟩
  rw [Bool.eq_false_iff, ne_eq, linkedTable_keys]
  rintro rfl
  exact hkey hmem

section Sources

variable {S : Type} [Postgres S] {db : Database S} {table : TableName}
  {changed key : RowKey GenericValue} {before : Option (RowImage GenericValue)}
  {ids : List (DocumentId GenericValue)} {name : IndexName} {index : IndexSchema}

theorem exists_resolveIndex_of_mem_resolve (h : resolve db spec table changed before = .ok ids)
    (hid : ⟨name, key⟩ ∈ ids) (hentry : (name, index) ∈ spec.indexes) :
    ∃ found, resolveIndex db table changed before name index = .ok found ∧ ⟨name, key⟩ ∈ found := by
  obtain ⟨found, hfound, h⟩ := Attempts.bind_ok.mp h
  cases h
  obtain ⟨ids, hids, hid⟩ := List.mem_flatten.mp hid
  obtain ⟨⟨name', index'⟩, hmem, hindex⟩ := Attempts.mem_of_mapM hfound hids
  obtain ⟨hname, -⟩ := resolvesTo_of_mem_resolveIndex hindex hid
  cases hname
  have hsame := SourceSpec.schema_of_mem hmem
  rw [SourceSpec.schema_of_mem hentry] at hsame
  cases hsame
  exact ⟨ids, hindex, hid⟩

theorem eq_of_mem_resolve (h : resolve db spec table changed before = .ok ids)
    (hid : ⟨name, key⟩ ∈ ids) (hentry : (name, index) ∈ spec.indexes)
    (htable : index.table = table) : key = changed := by
  obtain ⟨found, hindex, hid⟩ := exists_resolveIndex_of_mem_resolve h hid hentry
  simp only [resolveIndex, if_pos htable] at hindex
  cases hindex
  cases List.mem_singleton.mp hid
  rfl

end Sources

/-- Where changes resolve to every document that reads the row, no relation of an index leads to
its own root table. -/
theorem no_root_paths_of_complete
    (hshape : Shaped spec) (h : Complete (Option String) spec) :
    ∀ entry ∈ spec.indexes, findPaths entry.2.table [] entry.2.fields = [] := by
  rintro ⟨name, index⟩ hentry
  by_contra hpaths
  obtain ⟨path, hpath⟩ := List.exists_mem_of_ne_nil _ hpaths
  obtain ⟨rootPk, hrootPk⟩ := Option.isSome_iff_exists.mp (hshape.path _ hentry _ path hpath).1
  obtain ⟨key, hfresh⟩ := exists_fresh (rootPk :: linkColumns spec index.table ++
    path.filterMap fun relation =>
      match relation.key with | .ofParent column => some column | _ => none)
  simp only [List.cons_append, List.mem_cons, List.mem_append, not_or] at hfresh
  obtain ⟨hfreshPk, hfreshLink, hfreshColumn⟩ := hfresh
  have htwin : ∀ column, column ≠ key → twin key column = some "a" :=
    fun column hne => if_neg hne
  -- The root row and the changed row agree but for the key of the change.
  let rel := linkedTable spec index.dbSchema index.table key
  let before := withRows key index.dbSchema index.table [twin key]
  let after := withRows key index.dbSchema index.table [twin key, original]
  have hpresent : ∀ rows ⊆ [twin key, original], ∀ column s t,
      ∀ row ∈ rowsOf (withRows key index.dbSchema index.table rows) s t,
        Postgres.equals (row column) (row column) = true := by
    intro rows hrows column
    apply withRows_present
    intro row hrow
    rcases List.mem_pair.mp (hrows hrow) with rfl | rfl
    · unfold twin
      split <;> rfl
    · rfl
  have hbefore := hpresent [twin key] (by simp)
  have hafter := hpresent [twin key, original] (by simp)
  have hobs : Observed spec rel before after (.insert original) := by
    refine ⟨?_, ?_, trivial, ⟨?_, ?_⟩, ?_, ?_, ?_⟩
    · refine ⟨rfl, ?_, ⟨_, rfl, rfl⟩, linkedTable_carried⟩
      simp only [rel, linkedTable, List.map_map]
      have hid : (Pgoutput.Column.name ∘ fun column => (⟨column, true, 25⟩ : Pgoutput.Column)) =
          fun column => column := rfl
      rw [hid, List.map_id', List.nodup_cons]
      exact ⟨fun hmem => hfreshLink (List.mem_dedup.mp hmem), List.nodup_dedup _⟩
    · refine ⟨fun s t hne => ?_, ⟨_, _, [twin key], [], rfl, rfl, rfl, rfl, ?_, ?_⟩⟩
      · simp only [rel, linkedTable] at hne
        simp only [before, after, withRows, if_neg hne]
      · simp [rel, linkedTable, RowChange.old]
      · simp [rel, linkedTable, RowChange.new]
    · exact fun t pk _ => hbefore pk _ t
    · exact fun t pk _ => hafter pk _ t
    · rintro entry - pk - d (rfl | rfl)
      · exact hbefore pk _ _
      · exact hafter pk _ _
    · intro entry hentry' hne hreads
      exact hne (hshape.separate entry hentry' _ hentry hreads)
    · intro entry hentry' hschema
      refine withRows_textual.ready ?_ ?_ ?_ (hshape.path entry hentry' _)
      · intro row _ column hmem
        obtain ⟨-, -, rfl⟩ := List.mem_map.mp hmem
        exact cellValue_text rfl _
      · rintro row (hrow | hrow)
        · cases hrow
        · cases hrow
          exact fun _ _ _ => rfl
      · rintro pk - row (hrow | hrow)
        · cases hrow
        · cases hrow
          rfl
  obtain ⟨events, hevents, hcomplete⟩ := h rel before after (.insert original) hobs
    (linksCarried_linkedTable hfreshLink)
  -- The root row reads the changed row.
  have hreads : DocumentReads after index rel.table original (twin key) := by
    refine ⟨?_, Or.inr ?_⟩
    · simp [rowsOf, after, withRows]
    · obtain ⟨field, hfield, hfieldPath⟩ := mem_findPaths.mp hpath
      rw [hrootPk]
      refine reads_original (by simp) index.dbSchema field hfieldPath hfield
        (htwin _ fun h => hfreshPk h.symm) ?_
      intro relation hrelation column hkey
      refine htwin column fun h => hfreshColumn ?_
      exact List.mem_filterMap.mpr ⟨relation, hrelation, by rw [hkey, h]⟩
  obtain ⟨event, hevent, ids, hids, key', hid, hne, hselects⟩ :=
    (hcomplete _ hentry rfl (twin key)).2 original rfl hreads
  obtain ⟨events', hevents', hall, -, -⟩ := hobs.announced.events_spec hobs.sent
  rw [hevents] at hevents'
  cases hevents'
  obtain ⟨htable, ⟨row, hrow, hrowKey⟩, -⟩ := hall event hevent
  rcases hrow with hrow | hrow
  · cases hrow
  cases hrow
  rw [htable] at hids
  have hkey' := eq_of_mem_resolve hids hid hentry rfl
  obtain ⟨column, hmem, -, -, hsingle⟩ :=
    hobs.announced.keyOf_single (k := key) rfl original
  rw [hrowKey, hsingle] at hkey'
  subst hkey'
  obtain ⟨sqlType, -, -, t, hcast, hequals⟩ := hselects _ (List.mem_singleton.mpr rfl)
  have htype : column.typeOid = 25 := by
    obtain ⟨-, -, rfl⟩ := List.mem_map.mp hmem
    rfl
  rw [cellValue_text htype] at hcast
  cases hcast
  simp [Postgres.equals, twin] at hequals

/-- A change resolves to every document that reads the row, in every database, where no relation
of an index leads to its own root table, and, of the specs that can be resolved, only there. -/
theorem complete_iff (spec : SourceSpec) :
    ((∀ entry ∈ spec.indexes, findPaths entry.2.table [] entry.2.fields = []) →
      ∀ (S : Type) [Postgres S] [LawfulPostgres S], Complete S spec) ∧
    (Shaped spec → (∀ (S : Type) [Postgres S] [LawfulPostgres S], Complete S spec) →
      ∀ entry ∈ spec.indexes, findPaths entry.2.table [] entry.2.fields = []) :=
  ⟨fun h _ _ _ => complete_of_no_root_paths h, fun hshape h =>
    no_root_paths_of_complete hshape (h _)⟩

end Necessity

section Categories

/-- Documents of a table with the rows that name them as their parent. -/
def childrenIndex (table child : TableName) : IndexSchema :=
  { bareIndex ⟨"public"⟩ table with
    fields := [.join ⟨"children"⟩ [] ⟨child, .hasMany ⟨"parent_id"⟩, ⟨"id"⟩, false, none, none,
      none⟩ []] }

def childrenSpec (table child : TableName) : SourceSpec where
  indexes := [(⟨"documents"⟩, childrenIndex table child)]
  indexes_nodup := by simp

theorem childrenSpec_shaped (table child : TableName) : Shaped (childrenSpec table child) := by
  constructor
  · intro entry hentry t path hpath
    cases List.mem_singleton.mp hentry
    simp only [childrenIndex, findPaths, fieldPaths, List.append_nil, List.nil_append,
      List.mem_ite_nil_right, List.mem_singleton] at hpath
    obtain ⟨-, rfl⟩ := hpath
    refine ⟨rfl, fun relation hrelation through hkey => ?_⟩
    cases List.mem_singleton.mp hrelation
    cases hkey
  · intro entry hentry entry' hentry' _
    cases List.mem_singleton.mp hentry
    cases List.mem_singleton.mp hentry'
    rfl

/-- The items of orders are complete, and being so they do not lead back to the orders. -/
theorem complete_iff_items :
    (∀ (S : Type) [Postgres S] [LawfulPostgres S],
      Complete S (childrenSpec ⟨"orders"⟩ ⟨"items"⟩)) ∧
    ((∀ (S : Type) [Postgres S] [LawfulPostgres S],
      Complete S (childrenSpec ⟨"orders"⟩ ⟨"items"⟩)) →
      ∀ entry ∈ (childrenSpec ⟨"orders"⟩ ⟨"items"⟩).indexes,
        findPaths entry.2.table [] entry.2.fields = []) :=
  ⟨(complete_iff _).1 (by
    intro entry hentry
    cases List.mem_singleton.mp hentry
    rfl), (complete_iff _).2 (childrenSpec_shaped _ _)⟩

def rootCategory : Row (Option String) := fun column =>
  if column = ⟨"id"⟩ then some "1" else none

def childCategory : Row (Option String) := fun column =>
  if column = ⟨"id"⟩ then some "2" else if column = ⟨"parent_id"⟩ then some "1" else none

def categories : Pgoutput.Relation :=
  ⟨1, ⟨"public"⟩, ⟨"categories"⟩, [⟨⟨"id"⟩, true, 25⟩, ⟨⟨"parent_id"⟩, true, 25⟩], [⟨"id"⟩]⟩

def categoryRows (rows : List (Row (Option String))) : Database (Option String) :=
  withRows ⟨"id"⟩ ⟨"public"⟩ ⟨"categories"⟩ rows

theorem observed_categories : Observed (childrenSpec ⟨"categories"⟩ ⟨"categories"⟩) categories
    (categoryRows [rootCategory]) (categoryRows [rootCategory, childCategory])
    (.insert childCategory) := by
  have hpresent : ∀ rows ⊆ [rootCategory, childCategory], ∀ s t,
      ∀ row ∈ rowsOf (categoryRows rows) s t,
        Postgres.equals (row ⟨"id"⟩) (row ⟨"id"⟩) = true := by
    intro rows hrows
    apply withRows_present
    intro row hrow
    rcases List.mem_pair.mp (hrows hrow) with rfl | rfl <;> rfl
  have hbefore := hpresent [rootCategory] (by simp)
  have hafter := hpresent [rootCategory, childCategory] (by simp)
  refine ⟨?_, ?_, trivial, ⟨?_, ?_⟩, ?_, ?_, ?_⟩
  · exact ⟨rfl, by decide, ⟨_, rfl, rfl⟩, by decide⟩
  · refine ⟨fun s t hne => ?_, ⟨_, _, [rootCategory], [], rfl, rfl, rfl, rfl, rfl, rfl⟩⟩
    simp only [categories] at hne
    simp only [categoryRows, withRows, if_neg hne]
  · rintro t _ ⟨⟩
    exact hbefore _ t
  · rintro t _ ⟨⟩
    exact hafter _ t
  · intro entry hentry pk hpk d hd
    cases List.mem_singleton.mp hentry
    cases hpk
    rcases hd with rfl | rfl
    · exact hbefore _ _
    · exact hafter _ _
  · intro entry hentry hne
    cases List.mem_singleton.mp hentry
    exact absurd rfl hne
  · intro entry hentry _
    refine withRows_textual.ready ?_ ?_ ?_ ((childrenSpec_shaped _ _).path entry hentry _)
    · intro row _ column hmem
      simp only [categories, List.mem_cons, List.not_mem_nil, or_false] at hmem
      rcases hmem with rfl | rfl <;> exact cellValue_text rfl _
    · rintro row (hrow | hrow) column hmem hkeys
      · cases hrow
      · cases hrow
        simp only [categories, List.mem_cons, List.not_mem_nil, or_false] at hmem
        rcases hmem with rfl | rfl <;> rfl
    · rintro _ ⟨⟩ row (hrow | hrow)
      · cases hrow
      · cases hrow
        rfl

/-- The document of the root category holds the child inserted under it, and is not resolved. -/
theorem not_complete_categories :
    ¬ Complete (Option String) (childrenSpec ⟨"categories"⟩ ⟨"categories"⟩) := by
  intro h
  obtain ⟨events, hevents, hcomplete⟩ := h categories _ _ _ observed_categories (by
    intro entry hentry path hpath relation above hreverse link hlink
    cases List.mem_singleton.mp hentry
    simp only [childrenIndex, categories, findPaths, fieldPaths, hits, Relation.table,
      decide_true, Bool.true_or, if_true, List.append_nil, List.nil_append,
      List.mem_singleton] at hpath
    cases hpath
    cases hreverse
    cases hlink
    exact ⟨⟨⟨⟨"parent_id"⟩, true, 25⟩, by decide, rfl, rfl⟩,
      fun _ _ => ⟨⟨⟨"parent_id"⟩, true, 25⟩, by decide, rfl, by decide⟩⟩)
  have hlinked : Linked (categoryRows [rootCategory, childCategory]) ⟨"public"⟩
      (.join ⟨⟨"categories"⟩, .hasMany ⟨"parent_id"⟩, ⟨"id"⟩, false, none, none, none⟩)
      (some ⟨"id"⟩) rootCategory childCategory := ⟨_, rfl, by decide⟩
  have hreads : DocumentReads (categoryRows [rootCategory, childCategory])
      (childrenIndex ⟨"categories"⟩ ⟨"categories"⟩) ⟨"categories"⟩ childCategory rootCategory :=
    ⟨List.mem_cons_self, Or.inr (.here (List.mem_singleton.mpr rfl) rfl (Or.inl ⟨rfl, hlinked⟩))⟩
  have hinsert : RowChange.events categories (.insert childCategory) =
      .ok [.upsert ⟨"categories"⟩ [(⟨"id"⟩, .string "2")] none] := rfl
  rw [hinsert] at hevents
  cases hevents
  obtain ⟨event, hevent, ids, hids, key, hid, -, hselects⟩ :=
    (hcomplete _ (List.mem_singleton.mpr rfl) rfl rootCategory).2 childCategory rfl hreads
  cases List.mem_singleton.mp hevent
  have hkey := eq_of_mem_resolve hids hid (List.mem_singleton.mpr rfl) rfl
  subst hkey
  obtain ⟨sqlType, -, -, t, hcast, hequals⟩ := hselects _ (List.mem_singleton.mpr rfl)
  cases hcast
  cases hequals

end Categories

end Flusso.Document
