import Flusso.Cdc.Publication
import Flusso.Document.Constants

/-! # The tables that documents are made of

A source asks for changes of the tables that its indexes name. They are the tables
that reverse resolution finds paths to, and the contents of a document are made of
nothing else, unless a raw filter reads further tables.
-/

namespace Flusso

open Cdc (Publication QualifiedTable Server inspectPublication starts streams_iff
  streams_of_starts usersServer)
open Document

namespace SourceSpec

/-- The tables of a relation: its target and its junction. -/
def relationTables (dbSchema : DatabaseSchema) (relation : Relation) : List QualifiedTable :=
  ⟨dbSchema, relation.table⟩ ::
    match relation.key with
    | .through through => [⟨dbSchema, through.table⟩]
    | _ => []

mutual

def fieldTables (dbSchema : DatabaseSchema) : Field → List QualifiedTable
  | .group _ _ fields => collectRelationTables dbSchema fields
  | .join _ _ source fields =>
    relationTables dbSchema (.join source) ++ collectRelationTables dbSchema fields
  | .aggregate _ _ source => relationTables dbSchema (.aggregate source)
  | .column .. | .geo .. | .constant .. => []

/-- The target and junction tables of every relation, at any depth. -/
def collectRelationTables (dbSchema : DatabaseSchema) : List Field → List QualifiedTable
  | [] => []
  | field :: fields => fieldTables dbSchema field ++ collectRelationTables dbSchema fields

end

/-- Every table whose changes the source needs. -/
def allTables (spec : SourceSpec) : List QualifiedTable :=
  spec.indexes.flatMap fun entry =>
    ⟨entry.2.dbSchema, entry.2.table⟩ ::
      collectRelationTables entry.2.dbSchema entry.2.fields

section Membership

variable {dbSchema : DatabaseSchema} {t : QualifiedTable} {table : TableName}
  {fields : List Field}

theorem hits_iff {relation : Relation} : hits relation table = true ↔
    relation.table = table ∨ ∃ through, relation.key = .through through ∧
      through.table = table := by
  unfold hits
  cases relation.key <;> simp

theorem mem_relationTables {relation : Relation} : t ∈ relationTables dbSchema relation ↔
    t.schema = dbSchema ∧ hits relation t.table = true := by
  obtain ⟨schema, table⟩ := t
  rw [hits_iff, relationTables, List.mem_cons, QualifiedTable.mk.injEq]
  cases relation.key with
  | through through =>
    rw [List.mem_singleton, QualifiedTable.mk.injEq]
    constructor
    · rintro (⟨rfl, rfl⟩ | ⟨rfl, rfl⟩)
      · exact ⟨rfl, .inl rfl⟩
      · exact ⟨rfl, .inr ⟨through, rfl, rfl⟩⟩
    · rintro ⟨rfl, rfl | ⟨_, ⟨⟩, rfl⟩⟩
      · exact .inl ⟨rfl, rfl⟩
      · exact .inr ⟨rfl, rfl⟩
  | _ =>
    constructor
    · rintro (⟨rfl, rfl⟩ | h)
      · exact ⟨rfl, .inl rfl⟩
      · exact absurd h List.not_mem_nil
    · rintro ⟨rfl, rfl | ⟨_, ⟨⟩, -⟩⟩
      exact .inl ⟨rfl, rfl⟩

theorem exists_relationsOf {p : Relation → Prop} : (∃ relation ∈ relationsOf fields, p relation) ↔
    ∃ f ∈ fields, ∃ relation ∈ fieldRelations f, p relation := by
  induction fields with
  | nil => simp [relationsOf]
  | cons f fields ih =>
    rw [relationsOf]
    simp only [List.mem_append, or_and_right, exists_or, ih, List.mem_cons, exists_eq_left]

theorem mem_collectRelationTables_of {p : Field → Prop}
    (h : ∀ f ∈ fields, t ∈ fieldTables dbSchema f ↔ p f) :
    t ∈ collectRelationTables dbSchema fields ↔ ∃ f ∈ fields, p f := by
  induction fields with
  | nil => simp [collectRelationTables]
  | cons f fields ih =>
    obtain ⟨hf, hfields⟩ := List.forall_mem_cons.mp h
    rw [collectRelationTables, List.mem_append, hf, ih hfields]
    simp only [List.mem_cons, or_and_right, exists_or, exists_eq_left]

theorem mem_fieldTables (f : Field) : t ∈ fieldTables dbSchema f ↔
    ∃ relation ∈ fieldRelations f, t ∈ relationTables dbSchema relation := by
  induction f using Field.induct with
  | node f ih =>
    cases f with
    | group field options fields =>
      exact (mem_collectRelationTables_of ih).trans exists_relationsOf.symm
    | join field options source fields =>
      have hfields := (mem_collectRelationTables_of ih).trans exists_relationsOf.symm
      rw [fieldTables, List.mem_append, fieldRelations]
      simp only [List.mem_cons, or_and_right, exists_or, exists_eq_left]
      exact or_congr_right hfields
    | aggregate field options source => simp [fieldTables, fieldRelations]
    | _ => simp [fieldTables, fieldRelations]

theorem mem_collectRelationTables : t ∈ collectRelationTables dbSchema fields ↔
    ∃ relation ∈ relationsOf fields, t.schema = dbSchema ∧ hits relation t.table = true := by
  simp only [← mem_relationTables]
  exact (mem_collectRelationTables_of fun f _ => mem_fieldTables f).trans exists_relationsOf.symm

theorem findPaths_ne_nil_of {above : List Relation} {p : Field → Prop}
    (h : ∀ f ∈ fields, fieldPaths table above f ≠ [] ↔ p f) :
    findPaths table above fields ≠ [] ↔ ∃ f ∈ fields, p f := by
  induction fields with
  | nil => simp [findPaths]
  | cons f fields ih =>
    obtain ⟨hf, hfields⟩ := List.forall_mem_cons.mp h
    rw [findPaths, Ne, List.append_eq_nil_iff, not_and_or, ← Ne, ← Ne, hf, ih hfields]
    simp only [List.mem_cons, or_and_right, exists_or, exists_eq_left]

theorem fieldPaths_ne_nil (f : Field) : ∀ above, fieldPaths table above f ≠ [] ↔
    ∃ relation ∈ fieldRelations f, hits relation table = true := by
  induction f using Field.induct with
  | node f ih =>
    intro above
    cases f with
    | group field options fields =>
      exact (findPaths_ne_nil_of fun g hg => ih g hg above).trans exists_relationsOf.symm
    | join field options source fields =>
      have hfields : findPaths table (above ++ [.join source]) fields ≠ [] ↔
          ∃ relation ∈ relationsOf fields, hits relation table = true :=
        (findPaths_ne_nil_of fun g hg => ih g hg (above ++ [.join source])).trans
          exists_relationsOf.symm
      rw [fieldPaths, fieldRelations]
      simp only [List.mem_cons, or_and_right, exists_or, exists_eq_left]
      rw [Ne, List.append_eq_nil_iff, not_and_or, ← Ne, ← Ne, hfields]
      refine or_congr_left ?_
      cases hits (.join source) table <;> simp
    | aggregate field options source =>
      rw [fieldPaths, fieldRelations]
      cases hhit : hits (.aggregate source) table <;> simp [hhit]
    | _ => simp [fieldPaths, fieldRelations]

theorem findPaths_ne_nil_iff {above : List Relation} : findPaths table above fields ≠ [] ↔
    ∃ relation ∈ relationsOf fields, hits relation table = true :=
  (findPaths_ne_nil_of fun f _ => fieldPaths_ne_nil f above).trans exists_relationsOf.symm

/-- The tables a source needs changes of are those whose changes reverse resolution follows: the
root of an index, and every table to which it finds a path. -/
theorem mem_allTables_iff (spec : SourceSpec) (t : QualifiedTable) : t ∈ spec.allTables ↔
    ∃ entry ∈ spec.indexes, entry.2.dbSchema = t.schema ∧
      (entry.2.table = t.table ∨ findPaths t.table [] entry.2.fields ≠ []) := by
  rw [allTables, List.mem_flatMap]
  refine exists_congr fun entry => and_congr_right fun _ => ?_
  rw [List.mem_cons, mem_collectRelationTables, findPaths_ne_nil_iff]
  obtain ⟨schema, table⟩ := t
  rw [QualifiedTable.mk.injEq]
  constructor
  · rintro (⟨rfl, rfl⟩ | ⟨relation, hrelation, rfl, hhit⟩)
    · exact ⟨rfl, .inl rfl⟩
    · exact ⟨rfl, .inr ⟨relation, hrelation, hhit⟩⟩
  · rintro ⟨rfl, rfl | ⟨relation, hrelation, hhit⟩⟩
    · exact .inl ⟨rfl, rfl⟩
    · exact .inr ⟨relation, hrelation, rfl, hhit⟩

end Membership

section Dependence

variable {S : Type} [Postgres S] [Sql.Values S] {db db' : Database S} {dbSchema : DatabaseSchema}
  {table : TableName} {row : Row S}

omit [Postgres S] [Sql.Values S] in
theorem rowsOf_congr (h : db dbSchema table = db' dbSchema table) :
    rowsOf db dbSchema table = rowsOf db' dbSchema table := by
  rw [rowsOf, rowsOf, h]

omit [Postgres S] [Sql.Values S] in
theorem typeName_congr (h : db dbSchema table = db' dbSchema table) :
    typeName db dbSchema table = typeName db' dbSchema table := by
  funext column
  rw [typeName, typeName, storedType, storedType, h]

omit [Postgres S] [Sql.Values S] in
theorem keyColumn_congr (h : db dbSchema table = db' dbSchema table) :
    keyColumn db dbSchema table = keyColumn db' dbSchema table := by
  rw [keyColumn, keyColumn, tablePrimaryKey, tablePrimaryKey, tableOf, tableOf, h]

omit [Sql.Values S] in
theorem operandOf_congr (h : db dbSchema table = db' dbSchema table) :
    operandOf db dbSchema table = operandOf db' dbSchema table := by
  funext column value
  rw [operandOf, operandOf, typeName_congr h]

theorem passesAll_congr (h : db dbSchema table = db' dbSchema table) :
    passesAll db dbSchema table = passesAll db' dbSchema table := by
  have hpasses : passes db dbSchema table = passes db' dbSchema table := by
    funext row f
    unfold passes
    rw [operandOf_congr h]
  funext fs row
  rw [passesAll, passesAll, hpasses]

theorem failsAny_congr (h : db dbSchema table = db' dbSchema table) :
    failsAny db dbSchema table = failsAny db' dbSchema table := by
  have hfails : fails db dbSchema table = fails db' dbSchema table := by
    funext row f
    unfold fails
    rw [operandOf_congr h]
  funext fs row
  rw [failsAny, failsAny, hfails]

theorem linkedDirectly_congr (h : db dbSchema table = db' dbSchema table) :
    linkedDirectly db dbSchema table = linkedDirectly db' dbSchema table := by
  funext foreignKey fs key
  simp only [linkedDirectly, rowsOf_congr h, passesAll_congr h]

theorem linkedThrough_congr {through : Through} (h : db dbSchema table = db' dbSchema table)
    (hthrough : db dbSchema through.table = db' dbSchema through.table) :
    linkedThrough db dbSchema through table = linkedThrough db' dbSchema through table := by
  funext fs farPk parentPk parent
  simp only [linkedThrough, rowsOf_congr h, rowsOf_congr hthrough, passesAll_congr h,
    passesAll_congr hthrough]

omit [Postgres S] in
theorem columnContents_congr {column : Column} (h : db dbSchema table = db' dbSchema table) :
    columnContents db dbSchema column table row = columnContents db' dbSchema column table row := by
  unfold columnContents
  rw [typeName_congr h]

/-- Databases that hold the same in the tables of a relation. -/
def SameFor (db db' : Database S) (dbSchema : DatabaseSchema) (relation : Relation) : Prop :=
  ∀ t, hits relation t = true → db dbSchema t = db' dbSchema t

theorem joinRows_congr {join : Join} {parentPk : Option ColumnName}
    (h : SameFor db db' dbSchema (.join join)) :
    joinRows db dbSchema join row parentPk = joinRows db' dbSchema join row parentPk := by
  have htarget : db dbSchema join.table = db' dbSchema join.table :=
    h join.table (hits_iff.mpr (.inl rfl))
  unfold joinRows
  cases hkind : join.kind with
  | belongsTo column => simp only [linkedDirectly_congr htarget, keyColumn_congr htarget]
  | hasOne foreignKey => simp only [linkedDirectly_congr htarget]
  | hasMany foreignKey => simp only [linkedDirectly_congr htarget]
  | manyToMany through =>
    have hthrough : db dbSchema through.table = db' dbSchema through.table := by
      refine h through.table (hits_iff.mpr (.inr ⟨through, ?_, rfl⟩))
      rw [Relation.key, hkind]
    simp only [linkedThrough_congr htarget hthrough, keyColumn_congr htarget]

theorem aggregateRows_congr {aggregate : Aggregate} {parentPk : Option ColumnName}
    (h : SameFor db db' dbSchema (.aggregate aggregate)) :
    aggregateRows db dbSchema aggregate row parentPk =
      aggregateRows db' dbSchema aggregate row parentPk := by
  have htarget : db dbSchema aggregate.table = db' dbSchema aggregate.table :=
    h aggregate.table (hits_iff.mpr (.inl rfl))
  cases parentPk with
  | none => rfl
  | some pk =>
    cases hkey : aggregate.key with
    | direct foreignKey => simp only [aggregateRows, hkey, linkedDirectly_congr htarget]
    | through through =>
      have hthrough : db dbSchema through.table = db' dbSchema through.table := by
        refine h through.table (hits_iff.mpr (.inr ⟨through, ?_, rfl⟩))
        rw [Relation.key, hkey]
      simp only [aggregateRows, hkey, linkedThrough_congr htarget hthrough,
        keyColumn_congr htarget, rowsOf_congr htarget, rowsOf_congr hthrough,
        passesAll_congr htarget, passesAll_congr hthrough]

theorem pairContents_congr {constant : GenericValue → Json} {fields : List Field}
    {parentPk : Option ColumnName}
    (h : ∀ f ∈ fields, fieldContents db dbSchema constant f table row parentPk =
      fieldContents db' dbSchema constant f table row parentPk) :
    pairContents db dbSchema constant fields table row parentPk =
      pairContents db' dbSchema constant fields table row parentPk := by
  induction fields with
  | nil => rfl
  | cons f fields ih =>
    obtain ⟨hf, hfields⟩ := List.forall_mem_cons.mp h
    rw [pairContents, pairContents, hf, ih hfields]

omit [Postgres S] [Sql.Values S] in
theorem sameFor_of_mem {fields : List Field} {f : Field} (hf : f ∈ fields)
    (h : ∀ relation ∈ relationsOf fields, SameFor db db' dbSchema relation) :
    ∀ relation ∈ fieldRelations f, SameFor db db' dbSchema relation :=
  fun relation hrelation => h relation (fieldRelations_subset hf hrelation)

theorem fieldContents_congr {constant : GenericValue → Json} (f : Field) :
    ∀ (table : TableName) (row : Row S) (parentPk : Option ColumnName),
      db dbSchema table = db' dbSchema table →
      (∀ relation ∈ fieldRelations f, SameFor db db' dbSchema relation) →
      fieldContents db dbSchema constant f table row parentPk =
        fieldContents db' dbSchema constant f table row parentPk := by
  induction f using Field.induct with
  | node f ih =>
    intro table row parentPk htable hrelations
    cases f with
    | column field options source =>
      rw [fieldContents, fieldContents, columnContents_congr htable]
    | geo field options source => rw [fieldContents, fieldContents]
    | constant field options value => rw [fieldContents, fieldContents]
    | aggregate field options source =>
      have hsource : SameFor db db' dbSchema (.aggregate source) :=
        hrelations _ (List.mem_singleton_self _)
      have htarget := hsource source.table (hits_iff.mpr (.inl rfl))
      rw [fieldContents, fieldContents, aggregateContents, aggregateContents,
        aggregateRows_congr hsource, keyColumn_congr htarget]
    | group field options fields =>
      have hpairs : pairContents db dbSchema constant fields table row parentPk =
          pairContents db' dbSchema constant fields table row parentPk :=
        pairContents_congr fun g hg =>
          ih g hg table row parentPk htable (sameFor_of_mem hg hrelations)
      rw [fieldContents, fieldContents, hpairs]
    | join field options source fields =>
      have hsource : SameFor db db' dbSchema (.join source) := hrelations _ List.mem_cons_self
      have htarget := hsource source.table (hits_iff.mpr (.inl rfl))
      have hpairs : ∀ (r : Row S) pk, pairContents db dbSchema constant fields source.table r pk =
          pairContents db' dbSchema constant fields source.table r pk := by
        intro r pk
        refine pairContents_congr fun g hg => ih g hg source.table r pk htarget ?_
        exact sameFor_of_mem hg fun relation hrelation =>
          hrelations relation (List.mem_cons_of_mem _ hrelation)
      simp only [fieldContents, joinRows_congr hsource, keyColumn_congr htarget, hpairs]

theorem indexed_congr {index : IndexSchema}
    (h : db index.dbSchema index.table = db' index.dbSchema index.table) :
    indexed db index row = indexed db' index row := by
  unfold indexed spared
  rw [passesAll_congr h, failsAny_congr h]

/-- A document is made of the rows of its index's table and of its relations' tables. -/
theorem documentContents_congr {constant : GenericValue → Json} {fields : List Field}
    {primaryKey : Option ColumnName} (htable : db dbSchema table = db' dbSchema table)
    (hrelations : ∀ relation ∈ relationsOf fields, SameFor db db' dbSchema relation) :
    documentContents db dbSchema constant fields table row primaryKey =
      documentContents db' dbSchema constant fields table row primaryKey := by
  rw [documentContents, documentContents]
  refine congrArg (fun pairs => Json.object (Json.ofPairs pairs)) ?_
  exact pairContents_congr fun f hf =>
    fieldContents_congr f _ _ _ htable (sameFor_of_mem hf hrelations)

/-- The users, and whatever else. -/
def besideUsers (other : Option (Table (Option String))) : Database (Option String) :=
  fun schema table => if table = ⟨"users"⟩ then usersDatabase schema table else other

def sourcedSpec : SourceSpec where
  indexes := [(⟨"users"⟩, sourcedUsers (.string "crm"))]
  indexes_nodup := List.nodup_singleton _

theorem plain_sourcedSpec : ∀ t ∈ sourcedSpec.allTables, usersServer.IsPlain t := by
  have htables : sourcedSpec.allTables = [⟨⟨"public"⟩, ⟨"users"⟩⟩] := rfl
  intro t ht
  rw [htables, List.mem_singleton] at ht
  rw [ht]
  exact ⟨_, rfl, rfl⟩

theorem besideUsers_of_streamed {publication : Publication} {t : QualifiedTable}
    {other other' : Option (Table (Option String))}
    (h : (usersServer.withPublication "flusso" publication).streams "flusso" t = true) :
    besideUsers other t.schema t.table = besideUsers other' t.schema t.table := by
  obtain ⟨-, table, -, htable, -⟩ := streams_iff.mp h
  by_cases husers : t = ⟨⟨"public"⟩, ⟨"users"⟩⟩
  · rw [husers]
    rfl
  · have hnone : usersServer.tables t = none := if_neg husers
    have hsome : usersServer.tables t = some table := htable
    rw [hnone] at hsome
    cases hsome

end Dependence

end SourceSpec

end Flusso
