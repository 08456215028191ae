import Flusso.Cdc.Backfill
import Flusso.Document.Resolve

/-! # Indexes over several database schemas

A change event names its table without its schema, so it is resolved against
every index that reads a table of that name.
-/

namespace Flusso.Document

open Cdc Pgoutput

/-- A change captured for a table of a schema, live or from its snapshot. -/
inductive Captured (schema : DatabaseSchema) (table : TableName) :
    ChangeEvent GenericValue → Prop where
  | insert {rel new changes event} (hschema : rel.dbSchema = schema) (htable : rel.table = table)
      (h : insertChanges rel new = .ok changes) (he : event ∈ changes) : Captured schema table event
  | update {rel old new changes event} (hschema : rel.dbSchema = schema)
      (htable : rel.table = table) (h : updateChanges rel old new = .ok changes)
      (he : event ∈ changes) : Captured schema table event
  | delete {rel old changes event} (hschema : rel.dbSchema = schema) (htable : rel.table = table)
      (h : deleteChanges rel old = .ok changes) (he : event ∈ changes) : Captured schema table event
  | snapshot {view key} (h : (table, key) ∈ snapshotRows view [⟨schema, table⟩]) :
      Captured schema table (.upsert table key none)

theorem Captured.table_eq {schema : DatabaseSchema} {table : TableName}
    {event : ChangeEvent GenericValue} (h : Captured schema table event) : event.table = table := by
  cases h with
  | insert _ htable h he =>
    obtain ⟨key, -, h⟩ := Attempts.bind_ok.mp h
    cases h
    cases List.mem_singleton.mp he
    exact htable
  | @update rel old new changes event _ htable h he =>
    obtain ⟨key, -, h⟩ := Attempts.bind_ok.mp h
    cases old with
    | none =>
      cases h
      cases List.mem_singleton.mp he
      exact htable
    | some old =>
      obtain ⟨oldKey, -, h⟩ := Attempts.bind_ok.mp h
      split at h
      · cases h
        cases List.mem_singleton.mp he
        exact htable
      · cases h
        rcases List.mem_cons.mp he with rfl | he
        · exact htable
        · cases List.mem_singleton.mp he
          exact htable
  | delete _ htable h he =>
    obtain ⟨key, -, h⟩ := Attempts.bind_ok.mp h
    cases h
    cases List.mem_singleton.mp he
    exact htable
  | snapshot => rfl

/-- The ids a snapshot keeps of what a row resolves to. -/
def requestedIds (indexes : List IndexName) (ids : List (DocumentId GenericValue)) :
    List (DocumentId GenericValue) :=
  ids.filter fun id => id.index ∈ indexes

/-- Whether an index's documents are made of rows of a table. -/
def ReadsTable (index : IndexSchema) (table : TableName) : Prop :=
  index.table = table ∨ findPaths table [] index.fields ≠ []

/-- Whether a change of a table name resolves to documents of an index. -/
def ResolvesTo (index : IndexSchema) (table : TableName) : Prop :=
  index.table = table ∨ findPaths table [] index.fields ≠ [] ∧ index.primaryKey.isSome

section Isolation

variable (S : Type) [Postgres S]

/-- Every id derived from a change captured for the table, live or kept by a snapshot, is of an
index over the table's schema that reads the table. -/
def Isolated (spec : SourceSpec) (schema : DatabaseSchema) (table : TableName) : Prop :=
  ∀ (db : Database S) event ids, Captured schema table event →
    resolve db spec event.table event.key event.before = .ok ids →
      (∀ id ∈ ids, ∃ index, spec.schema id.index = some index ∧
        index.dbSchema = schema ∧ ReadsTable index table) ∧
      ∀ indexes, ∀ id ∈ requestedIds indexes ids, ∃ index, spec.schema id.index = some index ∧
        index.dbSchema = schema ∧ ReadsTable index table

/-- PostgreSQL has a text value whose column reads back as the text that selects it. -/
def TextReadsBack : Prop :=
  ∃ (s : S) (text sqlType : String) (t : S), Postgres.decodeColumn s = .string text ∧
    Postgres.cast sqlType (.string text) = some t ∧ Postgres.equals s t = true

end Isolation

section Derived

variable {S : Type} [Postgres S] {db : Database S} {spec : SourceSpec} {table : TableName}
  {key : RowKey GenericValue} {before : Option (RowImage GenericValue)}
  {ids : List (DocumentId GenericValue)}

theorem resolvesTo_of_mem_resolveIndex {name : IndexName} {index : IndexSchema}
    (h : resolveIndex db table key before name index = .ok ids) {id : DocumentId GenericValue}
    (hid : id ∈ ids) : id.index = name ∧ ResolvesTo index table := by
  unfold resolveIndex at h
  dsimp only at h
  split at h
  · next htable =>
    cases h
    cases List.mem_singleton.mp hid
    exact ⟨rfl, Or.inl htable⟩
  · split at h
    · cases h
      cases hid
    · next hpaths =>
      split at h
      · cases h
        cases hid
      · next hpk =>
        obtain ⟨roots, -, h⟩ := Attempts.bind_ok.mp h
        cases h
        obtain ⟨root, -, rfl⟩ := List.mem_map.mp hid
        exact ⟨rfl, Or.inr ⟨hpaths, by simp [hpk]⟩⟩

theorem exists_of_mem_resolve (h : resolve db spec table key before = .ok ids)
    {id : DocumentId GenericValue} (hid : id ∈ ids) :
    ∃ index, (id.index, index) ∈ spec.indexes ∧ ResolvesTo index table := by
  obtain ⟨found, hfound, h⟩ := Attempts.bind_ok.mp h
  cases h
  obtain ⟨ids, hids, hid⟩ := List.mem_flatten.mp hid
  obtain ⟨⟨name, index⟩, hmem, hindex⟩ := Attempts.mem_of_mapM hfound hids
  obtain ⟨rfl, hto⟩ := resolvesTo_of_mem_resolveIndex hindex hid
  exact ⟨index, hmem, hto⟩

end Derived

section Uniform

variable {S : Type} [Postgres S] {s t : S} {text sqlType : String}

/-- The database in which every table has one row, with the same value in every column. -/
def uniform (sqlType : String) (pk : ColumnName) (s : S) : Database S := fun _ _ =>
  some ⟨fun _ => some sqlType, [pk], [fun _ => s]⟩

variable (hdecode : Postgres.decodeColumn s = .string text)
  (hcast : Postgres.cast sqlType (.string text) = some t) (hequals : Postgres.equals s t = true)
  {pk : ColumnName} {schema : DatabaseSchema} {index : IndexSchema}

include hdecode hcast hequals

variable (pk schema) in
theorem reverseQuery_uniform (table : TableName) (select column : ColumnName) :
    reverseQuery (uniform sqlType pk s) schema table select [(column, .string text)] =
      .ok [.string text] := by
  have hoperand : operand (uniform sqlType pk s) schema table (column, .string text) =
      .ok (column, t) := by
    simp [operand, columnType, tableOf, uniform, GenericValue.isBindableScalar, hcast, bind,
      Except.bind]
  have hmatch : matchesKey [(column, t)] (fun _ => s) = true := by simp [matchesKey, hequals]
  simp only [reverseQuery, List.mapM_cons, List.mapM_nil, hoperand, bind, Except.bind, pure,
    Except.pure, columnType, tableOf, uniform, List.filter_cons, hmatch, List.filter_nil,
    if_true, List.map_cons, List.map_nil, hdecode, GenericValue.isNull, Bool.not_false,
    List.eraseDups_cons, List.eraseDups_nil]

theorem hopParents_uniform (relation : Relation) (currentTable parentTable : TableName)
    (parentPk column : ColumnName) :
    hopParents (uniform sqlType pk s) schema none relation currentTable parentTable parentPk
      [(column, .string text)] = .ok [.string text] := by
  have hquery := reverseQuery_uniform hdecode hcast hequals pk schema
  have hlocal := localTargetValue_single relation column (.string text)
  simp only [hopParents, reverseHop, reverseDirect, reverseLocal, reverseThroughJunction,
    reverseThroughFar, singleFarKey]
  cases relation.key with
  | ofParent linkColumn => simp [hlocal, hquery, bind, Except.bind, pure, Except.pure]
  | direct foreignKey => simp [hquery, bind, Except.bind, pure, Except.pure]
  | through through =>
    by_cases hcurrent : currentTable = through.table
    · by_cases hcolumn : column = through.leftKey <;>
        simp [hcurrent, hcolumn, hquery, bind, Except.bind, pure, Except.pure]
    · simp [hcurrent, hquery, bind, Except.bind, pure, Except.pure]

variable (pk) in
theorem climb_uniform {rootPk : ColumnName} (hpk : index.primaryKey = some rootPk)
    (path : List Relation) (table : TableName) (column : ColumnName) :
    ∃ column', climb (uniform sqlType pk s) index none table path [[(column, .string text)]] =
      .ok [[(column', .string text)]] := by
  induction path generalizing table column with
  | nil => exact ⟨column, rfl⟩
  | cons relation above ih =>
    have hparent : ∃ parent, parentOf (uniform sqlType pk s) index above = .ok parent := by
      cases above with
      | nil => exact ⟨(index.table, rootPk), by simp [parentOf, hpk]⟩
      | cons relation' above => exact ⟨(relation'.table, pk), rfl⟩
    obtain ⟨⟨parentTable, parentPk⟩, hparent⟩ := hparent
    obtain ⟨column', hclimb⟩ := ih parentTable parentPk
    refine ⟨column', ?_⟩
    simpa [climb, hparent, hopParents_uniform hdecode hcast hequals, bind, Except.bind, pure,
      Except.pure, List.eraseDups_cons] using hclimb

theorem resolvePath_uniform {rootPk : ColumnName} (hpk : index.primaryKey = some rootPk)
    (table : TableName) (column : ColumnName) (path : List Relation) :
    resolvePath (uniform sqlType pk s) index table [(column, .string text)] none path =
      .ok [.string text] := by
  obtain ⟨column', hclimb⟩ :=
    climb_uniform hdecode hcast hequals pk hpk path.reverse table column
  simp [resolvePath, hclimb, bind, Except.bind, pure, Except.pure]

variable (pk index) in
theorem resolveIndex_uniform (table : TableName) (column : ColumnName) (name : IndexName) :
    ∃ ids, resolveIndex (uniform sqlType pk s) table [(column, .string text)] none name index =
      .ok ids ∧ (ResolvesTo index table → ∃ id ∈ ids, id.index = name) := by
  unfold resolveIndex
  dsimp only
  split
  · exact ⟨_, rfl, fun _ => ⟨_, List.mem_singleton.mpr rfl, rfl⟩⟩
  · next htable =>
    split
    · next hpaths => exact ⟨_, rfl, fun h => absurd hpaths (h.resolve_left htable).1⟩
    · next hpaths =>
      split
      · next hpk =>
        exact ⟨_, rfl, fun h => absurd (h.resolve_left htable).2 (by simp [hpk])⟩
      · next rootPk hpk =>
        have hroots : ∀ path ∈ findPaths table [] index.fields, ∃ roots,
            resolvePath (uniform sqlType pk s) index table [(column, .string text)] none path =
              .ok roots :=
          fun path _ => ⟨_, resolvePath_uniform hdecode hcast hequals hpk table column path⟩
        obtain ⟨roots, hroots⟩ := Attempts.exists_mapM hroots
        refine ⟨_, by rw [hroots]; rfl, fun _ => ?_⟩
        obtain ⟨path, hpath⟩ := List.exists_mem_of_ne_nil _ hpaths
        obtain ⟨found, hfound, hpathRoots⟩ := Attempts.mem_mapM hroots hpath
        rw [resolvePath_uniform hdecode hcast hequals hpk] at hpathRoots
        cases hpathRoots
        obtain ⟨root, hroot, -⟩ := Attempts.exists_mem_eraseDups
          (List.mem_flatten.mpr ⟨_, hfound, List.mem_singleton.mpr rfl⟩)
        exact ⟨_, List.mem_map.mpr ⟨root, hroot, rfl⟩, rfl⟩

variable (pk) in
theorem exists_resolve_uniform (spec : SourceSpec) (table : TableName) (column : ColumnName) :
    ∃ ids, resolve (uniform sqlType pk s) spec table [(column, .string text)] none = .ok ids ∧
      ∀ entry ∈ spec.indexes, ResolvesTo entry.2 table → ∃ id ∈ ids, id.index = entry.1 := by
  have hall : ∀ entry ∈ spec.indexes, ∃ ids,
      resolveIndex (uniform sqlType pk s) table [(column, .string text)] none entry.1 entry.2 =
        .ok ids := fun entry _ =>
    (resolveIndex_uniform hdecode hcast hequals pk entry.2 table column entry.1).imp
      fun _ h => h.1
  obtain ⟨found, hfound⟩ := Attempts.exists_mapM hall
  refine ⟨found.flatten, by simp only [resolve, hfound]; rfl, fun entry hentry hto => ?_⟩
  obtain ⟨ids, hids, hindex⟩ := Attempts.mem_mapM hfound hentry
  obtain ⟨ids', hindex', hid⟩ :=
    resolveIndex_uniform hdecode hcast hequals pk entry.2 table column entry.1
  rw [hindex] at hindex'
  cases hindex'
  obtain ⟨id, hid, hname⟩ := hid hto
  exact ⟨id, List.mem_flatten.mpr ⟨ids, hids, hid⟩, hname⟩

end Uniform

/-- Changes of a table reach only the indexes of its schema exactly when no index of another
schema has a table of that name as its root or on a path from its keyed root. -/
theorem isolated_iff {S : Type} [Postgres S] (hread : TextReadsBack S) (spec : SourceSpec)
    (schema : DatabaseSchema) (table : TableName) :
    Isolated S spec schema table ↔
      ∀ entry ∈ spec.indexes, ResolvesTo entry.2 table → entry.2.dbSchema = schema := by
  constructor
  · intro h entry hentry hto
    obtain ⟨s, text, sqlType, t, hdecode, hcast, hequals⟩ := hread
    let pk : ColumnName := ⟨"id"⟩
    let rel : Pgoutput.Relation := ⟨0, schema, table, [⟨pk, true, 25⟩], []⟩
    have hinsert : insertChanges rel [.text text] =
        .ok [.upsert table [(pk, GenericValue.string text)] none] := rfl
    have hcaptured : Captured schema table (.upsert table [(pk, .string text)] none) :=
      .insert rfl rfl hinsert (List.mem_singleton.mpr rfl)
    obtain ⟨ids, hids, hall⟩ :=
      exists_resolve_uniform hdecode hcast hequals pk spec table pk
    obtain ⟨id, hid, hname⟩ := hall entry hentry hto
    obtain ⟨index, hindex, hschema, -⟩ := (h _ _ ids hcaptured hids).1 id hid
    have hspec : spec.schema entry.1 = some entry.2 := SourceSpec.schema_of_mem hentry
    rw [hname, hspec] at hindex
    cases hindex
    exact hschema
  · intro h db event ids hcaptured hids
    have hall : ∀ id ∈ ids, ∃ index, spec.schema id.index = some index ∧
        index.dbSchema = schema ∧ ReadsTable index table := by
      intro id hid
      rw [hcaptured.table_eq] at hids
      obtain ⟨index, hmem, hto⟩ := exists_of_mem_resolve hids hid
      exact ⟨index, SourceSpec.schema_of_mem hmem, h _ hmem hto, hto.imp_right And.left⟩
    exact ⟨hall, fun indexes id hid => hall id (List.mem_of_mem_filter hid)⟩

section Example

/-- An index over a table and nothing else. -/
def bareIndex (schema : DatabaseSchema) (table : TableName) : IndexSchema where
  version := 1
  table := table
  dbSchema := schema
  primaryKey := some ⟨"id"⟩
  docId := none
  softDelete := none
  filters := none
  fields := []

/-- Two indexes over tables of one name in two schemas. -/
def twoSchemas : SourceSpec where
  indexes := [(⟨"orders"⟩, bareIndex ⟨"public"⟩ ⟨"orders"⟩),
    (⟨"archive"⟩, bareIndex ⟨"archive"⟩ ⟨"orders"⟩)]
  indexes_nodup := by decide

theorem textReadsBack_option : TextReadsBack (Option String) :=
  ⟨some "1", "1", "text", some "1", rfl, rfl, by decide⟩

/-- Were every index over `public`, the table would be isolated. -/
theorem isolated_iff_one_schema :
    Isolated (Option String) ⟨[(⟨"orders"⟩, bareIndex ⟨"public"⟩ ⟨"orders"⟩)], by decide⟩
      ⟨"public"⟩ ⟨"orders"⟩ ↔
    ∀ entry ∈ [((⟨"orders"⟩ : IndexName), bareIndex ⟨"public"⟩ ⟨"orders"⟩)],
      ResolvesTo entry.2 ⟨"orders"⟩ → entry.2.dbSchema = ⟨"public"⟩ :=
  isolated_iff textReadsBack_option _ _ _

/-- An insert into `public.orders` reaches the index over `archive.orders`. -/
theorem not_isolated_two_schemas :
    ¬ ∀ spec schema table, Isolated (Option String) spec schema table := by
  intro h
  let rel : Pgoutput.Relation := ⟨0, ⟨"public"⟩, ⟨"orders"⟩, [⟨⟨"id"⟩, true, 25⟩], []⟩
  have hinsert : insertChanges rel [.text "1"] =
      .ok [.upsert ⟨"orders"⟩ [(⟨"id"⟩, GenericValue.string "1")] none] := rfl
  have hcaptured : Captured ⟨"public"⟩ ⟨"orders"⟩
      (.upsert ⟨"orders"⟩ [(⟨"id"⟩, .string "1")] none) :=
    .insert rfl rfl hinsert (List.mem_singleton.mpr rfl)
  have hids : resolve (S := Option String) (fun _ _ => none) twoSchemas ⟨"orders"⟩
      [(⟨"id"⟩, .string "1")] none =
      .ok [⟨⟨"orders"⟩, [(⟨"id"⟩, .string "1")]⟩, ⟨⟨"archive"⟩, [(⟨"id"⟩, .string "1")]⟩] := rfl
  obtain ⟨index, hindex, hschema, -⟩ :=
    (h twoSchemas _ _ _ _ _ hcaptured hids).1 ⟨⟨"archive"⟩, _⟩
      (List.mem_cons_of_mem _ (List.mem_singleton.mpr rfl))
  have harchive : twoSchemas.schema ⟨"archive"⟩ =
      some (bareIndex ⟨"archive"⟩ ⟨"orders"⟩) := rfl
  rw [harchive] at hindex
  cases hindex
  exact absurd hschema (by decide)

end Example

end Flusso.Document
