import Flusso.Document.Resolve

/-! # The rows a document reads

The correlations of the relation subqueries: which rows of a relation's table,
and of its junction, are read for a parent row. A row read anywhere under a root
hangs on a chain of linked rows, one for each relation of a path to its table.
-/

namespace Flusso.Document

/-- Equality on stored values is an equivalence of the values that are not null. -/
class LawfulPostgres (S : Type) [Postgres S] : Prop where
  symm : ∀ {a b : S}, Postgres.equals a b = true → Postgres.equals b a = true
  trans : ∀ {a b c : S}, Postgres.equals a b = true → Postgres.equals b c = true →
    Postgres.equals a c = true

instance : LawfulPostgres (Option String) where
  symm {a b} h := by
    simp only [Postgres.equals, Bool.and_eq_true, decide_eq_true_eq] at h ⊢
    exact ⟨h.2 ▸ h.1, h.2.symm⟩
  trans {a b c} h h' := by
    simp only [Postgres.equals, Bool.and_eq_true, decide_eq_true_eq] at h h' ⊢
    exact ⟨h.1, h.2.trans h'.2⟩

section Reading

variable {S : Type} [Postgres S] (db : Database S) (schema : DatabaseSchema)

/-- Whether the subquery of a relation correlates a row of its table with a parent row. -/
def Linked (relation : Relation) (parentPk : Option ColumnName) (parent row : Row S) : Prop :=
  match relation.key with
  | .ofParent column => ∃ pk, tablePrimaryKey db schema relation.table = .ok pk ∧
      Postgres.equals (row pk) (parent column) = true
  | .direct foreignKey => ∃ pk ∈ parentPk, Postgres.equals (row foreignKey) (parent pk) = true
  | .through through => ∃ pk ∈ parentPk, ∃ farPk,
      tablePrimaryKey db schema relation.table = .ok farPk ∧
      ∃ junction ∈ rowsOf db schema through.table,
        Postgres.equals (junction through.rightKey) (row farPk) = true ∧
        Postgres.equals (junction through.leftKey) (parent pk) = true

/-- Whether the subquery of a relation reads a row of a table, its own or its junction. -/
def Touches (relation : Relation) (parentPk : Option ColumnName) (parent : Row S)
    (table : TableName) (row : Row S) : Prop :=
  (relation.table = table ∧ Linked db schema relation parentPk parent row) ∨
    ∃ through, relation.key = .through through ∧ through.table = table ∧
      ∃ pk ∈ parentPk, Postgres.equals (row through.leftKey) (parent pk) = true

/-- The rows of a table that the subqueries of a field list read under a parent row, before
filters, ordering and limits. -/
inductive Reads (table : TableName) (row : Row S) :
    List Field → Option ColumnName → Row S → Prop where
  | group {fields : List Field} {name options below pk parent}
      (hf : Field.group name options below ∈ fields) (h : Reads table row below pk parent) :
      Reads table row fields pk parent
  | here {fields : List Field} {field relation pk parent} (hf : field ∈ fields)
      (hr : field.relation = some relation) (h : Touches db schema relation pk parent table row) :
      Reads table row fields pk parent
  | deeper {fields : List Field} {name options source below pk parent middle middlePk}
      (hf : Field.join name options source below ∈ fields)
      (hmem : middle ∈ rowsOf db schema source.table)
      (hlink : Linked db schema (.join source) pk parent middle)
      (hpk : tablePrimaryKey db schema source.table = .ok middlePk)
      (h : Reads table row below (some middlePk) middle) : Reads table row fields pk parent

variable (index : IndexSchema)

/-- A chain of linked rows from a root to a row; the relations are given from the row's. -/
inductive Chain (root : Row S) : List Relation → TableName → ColumnName → Row S → Prop where
  | root {pk} (hpk : index.primaryKey = some pk)
      (hmem : root ∈ rowsOf db index.dbSchema index.table)
      (hself : Postgres.equals (root pk) (root pk) = true) : Chain root [] index.table pk root
  | hop {relation above parentTable parentPk parent pk row}
      (h : Chain root above parentTable parentPk parent)
      (hpk : tablePrimaryKey db index.dbSchema relation.table = .ok pk)
      (hmem : row ∈ rowsOf db index.dbSchema relation.table)
      (hself : Postgres.equals (row pk) (row pk) = true)
      (hlink : Linked db index.dbSchema relation (some parentPk) parent row) :
      Chain root (relation :: above) relation.table pk row

end Reading

section Chains

variable {S : Type} [Postgres S] {db db' : Database S} {index : IndexSchema}
  {root parent : Row S} {above : List Relation} {table parentTable : TableName}
  {pk parentPk : ColumnName}

theorem Chain.parentOf_eq (h : Chain db index root above table pk parent) :
    parentOf db index above = .ok (table, pk) := by
  cases h with
  | root hpk => simp only [parentOf, hpk]
  | hop _ hpk => simp only [parentOf, hpk, bind, Except.bind, pure, Except.pure]

theorem Chain.mem (h : Chain db index root above table pk parent) :
    parent ∈ rowsOf db index.dbSchema table := by
  cases h with
  | root _ hmem => exact hmem
  | hop _ _ hmem => exact hmem

theorem Chain.self (h : Chain db index root above table pk parent) :
    Postgres.equals (parent pk) (parent pk) = true := by
  cases h with
  | root _ _ hself => exact hself
  | hop _ _ _ hself => exact hself

theorem hits_of_touches {relation : Relation} {parentPk : Option ColumnName} {row : Row S}
    {schema : DatabaseSchema} (h : Touches db schema relation parentPk parent table row) :
    hits relation table = true := by
  unfold hits
  rcases h with ⟨rfl, -⟩ | ⟨through, hkey, rfl, -⟩
  · simp
  · simp [hkey]

/-- What a chain needs of a later database: every row but one is still there, and the primary
keys are the same. -/
structure Survives (db db' : Database S) (schema : DatabaseSchema) (table : TableName)
    (row : Row S) : Prop where
  rows : ∀ t, ∀ r ∈ rowsOf db schema t, r ∈ rowsOf db' schema t ∨ t = table ∧ r = row
  primaryKey : ∀ t, tablePrimaryKey db' schema t = tablePrimaryKey db schema t

omit [Postgres S] in
theorem Survives.refl (db : Database S) (schema : DatabaseSchema) (table : TableName)
    (row : Row S) : Survives db db schema table row :=
  ⟨fun _ _ h => Or.inl h, fun _ => rfl⟩

variable {row : Row S} {schema : DatabaseSchema}

/-- A link is still there, unless the lost row was its junction row. -/
theorem Survives.linked (hs : Survives db db' schema table row) {relation : Relation}
    {parentPk : Option ColumnName} {child : Row S}
    (h : Linked db schema relation parentPk parent child) :
    Linked db' schema relation parentPk parent child ∨
      Touches db' schema relation parentPk parent table row := by
  unfold Linked at h ⊢
  split at h
  · exact Or.inl (by simpa only [hs.primaryKey] using h)
  · exact Or.inl h
  · next through hkey =>
    obtain ⟨pk, hpk, farPk, hfar, junction, hjunction, hright, hleft⟩ := h
    rcases hs.rows _ _ hjunction with hmem | ⟨htable, rfl⟩
    · exact Or.inl ⟨pk, hpk, farPk, by rw [hs.primaryKey, hfar], junction, hmem, hright, hleft⟩
    · exact Or.inr (Or.inr ⟨through, hkey, htable, pk, hpk, hleft⟩)

theorem Survives.touches (hs : Survives db db' schema table row) {relation : Relation}
    {parentPk : Option ColumnName} (h : Touches db schema relation parentPk parent table row) :
    Touches db' schema relation parentPk parent table row := by
  rcases h with ⟨htable, h⟩ | h
  · rcases hs.linked h with h | h
    · exact Or.inl ⟨htable, h⟩
    · exact h
  · exact Or.inr h

/-- Primary keys are present: a row's primary key equals itself. -/
def KeysPresent (db : Database S) (schema : DatabaseSchema) : Prop :=
  ∀ table pk, tablePrimaryKey db schema table = .ok pk →
    ∀ row ∈ rowsOf db schema table, Postgres.equals (row pk) (row pk) = true

/-- A row read under a chain's end hangs on a path to its table whose upper rows all survive:
the path is cut where the lost row first stands on it. -/
theorem exists_chain_of_reads (hs : Survives db db' index.dbSchema table row)
    (hkeys : KeysPresent db index.dbSchema) {fields : List Field} {fieldsPk : Option ColumnName}
    (h : Reads db index.dbSchema table row fields fieldsPk parent)
    (hpk : fieldsPk = some parentPk)
    (hchain : Chain db' index root above parentTable parentPk parent) :
    ∃ path ∈ findPaths table above.reverse fields, ∃ relation above' parentTable' parentPk' parent',
      path.reverse = relation :: above' ∧
      Chain db' index root above' parentTable' parentPk' parent' ∧
      Touches db' index.dbSchema relation (some parentPk') parent' table row := by
  -- The path that ends with a relation reading the row itself.
  have stop : ∀ {fields : List Field} {field relation above parentTable parentPk} {parent : Row S},
      field ∈ fields → field.relation = some relation →
      Chain db' index root above parentTable parentPk parent →
      Touches db' index.dbSchema relation (some parentPk) parent table row →
      ∃ path ∈ findPaths table above.reverse fields,
        ∃ relation above' parentTable' parentPk' parent', path.reverse = relation :: above' ∧
          Chain db' index root above' parentTable' parentPk' parent' ∧
          Touches db' index.dbSchema relation (some parentPk') parent' table row := by
    intro fields field relation above parentTable parentPk parent hf hr hchain htouch
    have hhit := hits_of_touches htouch
    refine ⟨above.reverse ++ [relation], mem_findPaths_of_mem hf ?_, relation, above, _, _, _,
      by simp, hchain, htouch⟩
    cases field with
    | join name options source below =>
      cases hr
      simp [fieldPaths, hhit]
    | aggregate name options source =>
      cases hr
      simp [fieldPaths, hhit]
    | column => cases hr
    | group => cases hr
    | geo => cases hr
    | constant => cases hr
  induction h generalizing above parentTable parentPk with
  | group hf _ ih =>
    obtain ⟨path, hpath, hrest⟩ := ih hpk hchain
    refine ⟨path, mem_findPaths_of_mem hf ?_, hrest⟩
    rw [fieldPaths]
    exact hpath
  | here hf hr h =>
    subst hpk
    exact stop hf hr hchain (hs.touches h)
  | @deeper fields name options source below pk parent middle middlePk hf hmem hlink hmiddle h ih =>
    subst hpk
    rcases hs.linked hlink with hlink | htouch
    · rcases hs.rows _ _ hmem with hmem' | ⟨htable, rfl⟩
      · have hnext : Chain db' index root (.join source :: above) source.table middlePk middle :=
          .hop hchain (by rw [← hmiddle]; exact hs.primaryKey _) hmem'
            (hkeys _ _ hmiddle _ hmem) hlink
        obtain ⟨path, hpath, hrest⟩ := ih rfl hnext
        refine ⟨path, mem_findPaths_of_mem hf ?_, hrest⟩
        rw [fieldPaths, List.mem_append]
        exact Or.inr (by simpa using hpath)
      · exact stop hf rfl hchain (Or.inl ⟨htable, hlink⟩)
    · exact stop hf rfl hchain htouch

end Chains

end Flusso.Document
