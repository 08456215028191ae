import Flusso.Document.Arrival
import Flusso.Document.Isolation

/-! # Completeness of reverse resolution

A document that reads a changed row is resolved from the change, before and
after it, save where the row's table is the root table of the document's index:
there the change resolves to the document of the changed row alone.
-/

namespace Flusso.Document

open Cdc Pgoutput

section Naming

variable {S : Type} [Postgres S] (db : Database S)

/-- Some id of an index has a key that selects the root row. -/
def Names (name : IndexName) (index : IndexSchema) (root : Row S)
    (ids : List (DocumentId GenericValue)) : Prop :=
  ∃ key, ⟨name, key⟩ ∈ ids ∧ key ≠ [] ∧ KeySelects db index.dbSchema index.table key root

/-- What the path of the relations to a changed table needs of the database: it can be climbed,
and the versions of the changed row read as what they hold. -/
structure PathReady (index : IndexSchema) (rel : Pgoutput.Relation) (versions : Row S → Prop)
    (relation : Relation) (above : List Relation) : Prop where
  climbable : Climbable db index (relation :: above)
  primaryKey : ∃ pk, tablePrimaryKey db index.dbSchema relation.table = .ok pk
  legible : ∀ parentTable parentPk parentType,
    parentOf db index above = .ok (parentTable, parentPk) →
    columnType db index.dbSchema (asked index parentTable parentPk above).1
      (asked index parentTable parentPk above).2 = .ok parentType →
    ∀ row, versions row → RowLegible db index rel relation above parentType row

/-- What an index needs of the database for a change of a table to be resolved. -/
structure Ready (index : IndexSchema) (rel : Pgoutput.Relation) (versions : Row S → Prop) :
    Prop where
  root : index.table = rel.table → ∀ row, versions row → KeyLegible db index rel row
  path : index.table ≠ rel.table → ∀ path ∈ findPaths rel.table [] index.fields,
    ∀ relation above, path.reverse = relation :: above →
      PathReady db index rel versions relation above

end Naming

section Resolving

variable {S : Type} [Postgres S] [LawfulPostgres S] {db : Database S} {name : IndexName}
  {index : IndexSchema} {rel : Pgoutput.Relation} {versions : Row S → Prop} {row root : Row S}
  {before : Option (RowImage GenericValue)}

omit [Postgres S] [LawfulPostgres S] in
theorem exists_path_end {table : TableName} {fields : List Field} {path : List Relation}
    (h : path ∈ findPaths table [] fields) :
    ∃ relation above, path.reverse = relation :: above ∧ hits relation table = true := by
  obtain ⟨field, -, h⟩ := mem_findPaths.mp h
  obtain ⟨rest, relation, rfl, hhit⟩ := hits_of_mem_fieldPaths field h
  exact ⟨relation, rest.reverse, by simp, hhit⟩

/-- Along one path a change resolves, to the root of every chain its first hop leads into. -/
theorem PathReady.exists_resolvePath {path above : List Relation} {relation : Relation}
    (ha : Announced rel db index.dbSchema rel.table)
    (hready : PathReady db index rel versions relation above)
    (hpath : path.reverse = relation :: above) (hhit : hits relation rel.table = true)
    (hrow : versions row)
    (hbefore : ∀ image, before = some image → ∃ old, versions old ∧ imageOf rel old = some image) :
    ∃ roots pk pkType, resolvePath db index rel.table (keyOf rel row) before path = .ok roots ∧
      index.primaryKey = some pk ∧ columnType db index.dbSchema index.table pk = .ok pkType ∧
      ∀ root parentTable parentPk parent, Chain db index root above parentTable parentPk parent →
        (∀ parentType vs,
          Arrives db index rel relation above parentTable parentPk parentType before row vs →
          columnType db index.dbSchema (asked index parentTable parentPk above).1
            (asked index parentTable parentPk above).2 = .ok parentType →
          Finds parentType vs (parent parentPk)) →
        Finds pkType roots (root pk) := by
  obtain ⟨hself, ⟨parentTable, parentPk, parentType, hparent, htold⟩, hclimb⟩ := hready.climbable
  have hlegible := hready.legible parentTable parentPk parentType hparent htold.2.1
  have hbeforeLegible : ∀ image, before = some image → ∃ old, imageOf rel old = some image ∧
      RowLegible db index rel relation above parentType old := by
    intro image himage
    obtain ⟨old, hold, holdImage⟩ := hbefore image himage
    exact ⟨old, holdImage, hlegible old hold⟩
  obtain ⟨vs, hvs, harrives⟩ := exists_arrives ha hhit hself hready.primaryKey hparent htold
    (hlegible row hrow) hbeforeLegible
  obtain ⟨roots, pk, pkType, hroots, hpk, hpkType, hfinds⟩ :=
    resolvePath_spec hpath hparent htold.2.1 hclimb hvs harrives.usable
  refine ⟨roots, pk, pkType, hroots, hpk, hpkType, ?_⟩
  intro root parentTable' parentPk' parent hchain harrival
  have heq := hchain.parentOf_eq
  rw [hparent] at heq
  cases heq
  exact hfinds root parent hchain (harrival parentType vs harrives htold.2.1)

variable (name) in
/-- An index resolves a change of a table, to the row itself at the root table and to the roots
its paths lead to elsewhere. -/
theorem Ready.exists_resolveIndex (ha : Announced rel db index.dbSchema rel.table)
    (hready : Ready db index rel versions) (hrow : versions row)
    (hbefore : ∀ image, before = some image → ∃ old, versions old ∧ imageOf rel old = some image) :
    ∃ ids, resolveIndex db rel.table (keyOf rel row) before name index = .ok ids ∧
      (index.table = rel.table → ids = [⟨name, keyOf rel row⟩]) ∧
      (index.table ≠ rel.table → ∀ path ∈ findPaths rel.table [] index.fields,
        ∀ relation above, path.reverse = relation :: above →
        ∀ root parentTable parentPk parent, Chain db index root above parentTable parentPk parent →
          (∀ parentType vs,
            Arrives db index rel relation above parentTable parentPk parentType before row vs →
            columnType db index.dbSchema (asked index parentTable parentPk above).1
              (asked index parentTable parentPk above).2 = .ok parentType →
            Finds parentType vs (parent parentPk)) →
          Names db name index root ids) := by
  unfold resolveIndex
  dsimp only
  by_cases htable : index.table = rel.table
  · rw [if_pos htable]
    exact ⟨_, rfl, fun _ => rfl, fun h => absurd htable h⟩
  rw [if_neg htable]
  by_cases hpaths : findPaths rel.table [] index.fields = []
  · rw [if_pos hpaths]
    refine ⟨_, rfl, fun h => absurd h htable, fun _ path hpath => ?_⟩
    rw [hpaths] at hpath
    cases hpath
  rw [if_neg hpaths]
  have hall : ∀ path ∈ findPaths rel.table [] index.fields, ∃ roots,
      resolvePath db index rel.table (keyOf rel row) before path = .ok roots := by
    intro path hpath
    obtain ⟨relation, above, hreverse, hhit⟩ := exists_path_end hpath
    obtain ⟨roots, -, -, hroots, -⟩ := (hready.path htable path hpath relation above
      hreverse).exists_resolvePath ha hreverse hhit hrow hbefore
    exact ⟨roots, hroots⟩
  obtain ⟨found, hfound⟩ := Attempts.exists_mapM hall
  have hpk : ∃ pk, index.primaryKey = some pk := by
    obtain ⟨path, hpath⟩ := List.exists_mem_of_ne_nil _ hpaths
    obtain ⟨relation, above, hreverse, hhit⟩ := exists_path_end hpath
    obtain ⟨-, pk, -, -, hpk, -⟩ := (hready.path htable path hpath relation above
      hreverse).exists_resolvePath ha hreverse hhit hrow hbefore
    exact ⟨pk, hpk⟩
  obtain ⟨pk, hpk⟩ := hpk
  simp only [hpk, hfound, bind, Except.bind, pure, Except.pure]
  refine ⟨_, rfl, fun h => absurd h htable, ?_⟩
  intro _ path hpath relation above hreverse root parentTable parentPk parent hchain harrival
  obtain ⟨relation', above', hreverse', hhit⟩ := exists_path_end hpath
  rw [hreverse] at hreverse'
  cases hreverse'
  obtain ⟨roots, pk', pkType, hroots, hpk', hpkType, hfinds⟩ := (hready.path htable path hpath
    relation above hreverse).exists_resolvePath ha hreverse hhit hrow hbefore
  rw [hpk] at hpk'
  cases hpk'
  obtain ⟨roots', hmem, hroots'⟩ := Attempts.mem_mapM hfound hpath
  rw [hroots] at hroots'
  cases hroots'
  obtain ⟨v, hv, hreads⟩ := hfinds root parentTable parentPk parent hchain harrival
  have hflat : Finds pkType found.flatten (root pk) :=
    ⟨v, List.mem_flatten.mpr ⟨roots, hmem, hv⟩, hreads⟩
  obtain ⟨w, hw, hreads⟩ := hflat.eraseDups
  refine ⟨[(pk, w)], List.mem_map.mpr ⟨w, hw, rfl⟩, List.cons_ne_nil _ _, ?_⟩
  intro entry hentry
  cases List.mem_singleton.mp hentry
  exact ⟨pkType, hpkType, hreads.selects⟩

end Resolving

section Changes

variable {S : Type} [Postgres S]

/-- A document reads a row version: its own root row, or a row its relations read. -/
def DocumentReads (db : Database S) (index : IndexSchema) (table : TableName)
    (row root : Row S) : Prop :=
  root ∈ rowsOf db index.dbSchema index.table ∧
    (index.table = table ∧ row = root ∨
      Reads db index.dbSchema table row index.fields index.primaryKey root)

/-- The link columns a relation reads on a changed row are carried over to its old version. -/
def LinksCarried (spec : SourceSpec) (rel : Pgoutput.Relation) : Prop :=
  ∀ entry ∈ spec.indexes, ∀ path ∈ findPaths rel.table [] entry.2.fields,
    ∀ relation above, path.reverse = relation :: above → LinkCarried rel relation

/-- A change of one row of an announced table, in a database the indexes can be resolved in. -/
structure Observed (spec : SourceSpec) (rel : Pgoutput.Relation) (db db' : Database S)
    (change : RowChange S) : Prop where
  announced : Announced rel db rel.dbSchema rel.table
  applied : Applied db db' rel.dbSchema rel.table change
  sent : change.Sent rel
  keysPresent : KeysPresent db rel.dbSchema ∧ KeysPresent db' rel.dbSchema
  rootKeys : ∀ entry ∈ spec.indexes, ∀ pk, entry.2.primaryKey = some pk →
    ∀ d, d = db ∨ d = db' → ∀ root ∈ rowsOf d entry.2.dbSchema entry.2.table,
      Postgres.equals (root pk) (root pk) = true
  elsewhere : ∀ entry ∈ spec.indexes, entry.2.dbSchema ≠ rel.dbSchema →
    ¬ ReadsTable entry.2 rel.table
  ready : ∀ entry ∈ spec.indexes, entry.2.dbSchema = rel.dbSchema →
    Ready db' entry.2 rel change.Version

/-- A captured event resolves to the document of a root row. -/
def Resolved (db : Database S) (spec : SourceSpec) (name : IndexName) (index : IndexSchema)
    (root : Row S) (event : ChangeEvent GenericValue) : Prop :=
  ∃ ids, resolve db spec event.table event.key event.before = .ok ids ∧
    Names db name index root ids

/-- Every document that read the old version of a changed row or reads the new one is resolved
from the change. -/
def Complete (S : Type) [Postgres S] (spec : SourceSpec) : Prop :=
  ∀ (rel : Pgoutput.Relation) (db db' : Database S) (change : RowChange S),
    Observed spec rel db db' change → LinksCarried spec rel →
    ∃ events, change.events rel = .ok events ∧
      ∀ entry ∈ spec.indexes, entry.2.dbSchema = rel.dbSchema → ∀ root,
        (∀ old, change.old = some old → DocumentReads db entry.2 rel.table old root →
          ∃ event ∈ events, Resolved db' spec entry.1 entry.2 root event) ∧
        ∀ new, change.new = some new → DocumentReads db' entry.2 rel.table new root →
          ∃ event ∈ events, Resolved db' spec entry.1 entry.2 root event

end Changes

section Completeness

variable {S : Type} [Postgres S] [LawfulPostgres S] {spec : SourceSpec} {rel : Pgoutput.Relation}
  {db db' : Database S} {change : RowChange S} {name : IndexName} {index : IndexSchema}
  {row root : Row S} {before : Option (RowImage GenericValue)}

omit [LawfulPostgres S] in
theorem findPaths_ne_nil_of_reads {schema : DatabaseSchema} {table : TableName}
    {fields : List Field} {pk : Option ColumnName} {parent : Row S}
    (h : Reads db schema table row fields pk parent) (above : List Relation) :
    findPaths table above fields ≠ [] := by
  have stop : ∀ {fields : List Field} {field : Field} {above : List Relation},
      field ∈ fields → fieldPaths table above field ≠ [] → findPaths table above fields ≠ [] := by
    intro fields field above hf hpaths
    obtain ⟨path, hpath⟩ := List.exists_mem_of_ne_nil _ hpaths
    exact List.ne_nil_of_mem (mem_findPaths_of_mem hf hpath)
  induction h generalizing above with
  | group hf _ ih =>
    apply stop hf
    rw [fieldPaths]
    exact ih above
  | @here fields field relation pk parent hf hr h =>
    have hhit := hits_of_touches h
    apply stop hf
    cases field with
    | join name options source below =>
      cases hr
      simp [fieldPaths, hhit]
    | aggregate name options source =>
      cases hr
      simp [fieldPaths, hhit]
    | column => cases hr
    | group => cases hr
    | geo => cases hr
    | constant => cases hr
  | deeper hf _ _ _ _ ih =>
    apply stop hf
    rw [fieldPaths]
    exact List.append_ne_nil_of_right_ne_nil _ (ih _)

/-- The spec resolves a change keyed by one of its versions, and in an index over the changed
table's schema to what the index resolves. -/
theorem Observed.exists_resolve (hobs : Observed spec rel db db' change)
    (hrow : change.Version row) (hbefore : ∀ image, before = some image → ∃ old,
      change.Version old ∧ imageOf rel old = some image)
    (hentry : (name, index) ∈ spec.indexes) :
    ∃ ids found, resolve db' spec rel.table (keyOf rel row) before = .ok ids ∧
      resolveIndex db' rel.table (keyOf rel row) before name index = .ok found ∧ found ⊆ ids := by
  have hall : ∀ entry ∈ spec.indexes, ∃ ids,
      resolveIndex db' rel.table (keyOf rel row) before entry.1 entry.2 = .ok ids := by
    intro entry hentry
    by_cases hschema : entry.2.dbSchema = rel.dbSchema
    · have ha : Announced rel db' entry.2.dbSchema rel.table :=
        hschema ▸ hobs.announced.applied hobs.applied
      obtain ⟨ids, hids, -⟩ :=
        (hobs.ready entry hentry hschema).exists_resolveIndex entry.1 ha hrow hbefore
      exact ⟨ids, hids⟩
    · have hreads := hobs.elsewhere entry hentry hschema
      refine ⟨[], ?_⟩
      simp only [resolveIndex, if_neg fun h => hreads (Or.inl h),
        if_pos (not_not.mp fun h => hreads (Or.inr h))]
  obtain ⟨found, hfound⟩ := Attempts.exists_mapM hall
  obtain ⟨ids, hids, hindex⟩ := Attempts.mem_mapM hfound hentry
  refine ⟨found.flatten, ids, by simp only [resolve, hfound]; rfl, hindex, fun id hid => ?_⟩
  exact List.mem_flatten.mpr ⟨ids, hids, hid⟩

theorem Observed.resolved_path (hobs : Observed spec rel db db' change)
    (hrow : change.Version row) (hbefore : ∀ image, before = some image → ∃ old,
      change.Version old ∧ imageOf rel old = some image)
    (hentry : (name, index) ∈ spec.indexes) (hschema : index.dbSchema = rel.dbSchema)
    (htable : index.table ≠ rel.table) {path above : List Relation} {relation : Relation}
    (hpath : path ∈ findPaths rel.table [] index.fields) (hreverse : path.reverse = relation :: above)
    {parentTable : TableName} {parentPk : ColumnName} {parent : Row S}
    (hchain : Chain db' index root above parentTable parentPk parent)
    (harrival : ∀ parentType vs,
      Arrives db' index rel relation above parentTable parentPk parentType before row vs →
      columnType db' index.dbSchema (asked index parentTable parentPk above).1
        (asked index parentTable parentPk above).2 = .ok parentType →
      Finds parentType vs (parent parentPk)) :
    ∃ ids, resolve db' spec rel.table (keyOf rel row) before = .ok ids ∧
      Names db' name index root ids := by
  obtain ⟨ids, found, hids, hfound, hsub⟩ := hobs.exists_resolve hrow hbefore hentry
  have ha : Announced rel db' index.dbSchema rel.table :=
    hschema ▸ hobs.announced.applied hobs.applied
  obtain ⟨found', hfound', -, hnames⟩ :=
    (hobs.ready _ hentry hschema).exists_resolveIndex name ha hrow hbefore
  rw [hfound] at hfound'
  cases hfound'
  obtain ⟨key, hkey, hne, hselects⟩ := hnames htable path hpath relation above hreverse root
    parentTable parentPk parent hchain harrival
  exact ⟨ids, hids, key, hsub hkey, hne, hselects⟩

theorem Observed.resolved_root (hobs : Observed spec rel db db' change)
    (hrow : change.Version row) (hroot : change.Version root)
    (hsame : (keyOf rel root == keyOf rel row) = true)
    (hbefore : ∀ image, before = some image → ∃ old,
      change.Version old ∧ imageOf rel old = some image)
    (hentry : (name, index) ∈ spec.indexes) (hschema : index.dbSchema = rel.dbSchema)
    (htable : index.table = rel.table) :
    ∃ ids, resolve db' spec rel.table (keyOf rel row) before = .ok ids ∧
      Names db' name index root ids := by
  obtain ⟨ids, found, hids, hfound, hsub⟩ := hobs.exists_resolve hrow hbefore hentry
  have ha : Announced rel db' index.dbSchema rel.table :=
    hschema ▸ hobs.announced.applied hobs.applied
  obtain ⟨found', hfound', hself, -⟩ :=
    (hobs.ready _ hentry hschema).exists_resolveIndex name ha hrow hbefore
  rw [hfound] at hfound'
  cases hfound'
  refine ⟨ids, hids, keyOf rel row, hsub (hself htable ▸ List.mem_singleton.mpr rfl),
    ha.keyOf_ne_nil row, ?_⟩
  have hlegible := (hobs.ready _ hentry hschema).root htable root hroot
  intro entry hentry
  obtain ⟨e, he, hname, heq⟩ := exists_left_of_beq hsame hentry
  obtain ⟨column, hmem, hkeys, rfl⟩ := mem_keyOf.mp he
  obtain ⟨sqlType, htype, hreads⟩ := hlegible column hmem hkeys
  rw [← hname, htable]
  exact ⟨sqlType, htype, (hreads.congr heq).selects⟩

omit [LawfulPostgres S] in
theorem exists_primaryKey_of_climbable {relation : Relation} {above : List Relation}
    (h : Climbable db index (relation :: above)) : ∃ pk, index.primaryKey = some pk := by
  induction above generalizing relation with
  | nil =>
    obtain ⟨-, ⟨parentTable, parentPk, sqlType, hparent, -⟩, -⟩ := h
    cases hpk : index.primaryKey with
    | none =>
      simp only [parentOf, hpk] at hparent
      cases hparent
    | some pk => exact ⟨pk, rfl⟩
  | cons relation' above ih => exact ih h.2.2

omit [LawfulPostgres S] in
/-- A row a document reads below its root hangs on a chain in the later database, on a path to
the row's table, and is read there. -/
theorem Observed.exists_chain (hobs : Observed spec rel db db' change)
    (hentry : (name, index) ∈ spec.indexes) (hschema : index.dbSchema = rel.dbSchema)
    (htable : index.table ≠ rel.table) {d : Database S} (hd : d = db ∨ d = db')
    (hs : Survives d db' rel.dbSchema rel.table row)
    (hmem : root ∈ rowsOf db' index.dbSchema index.table)
    (hreads : Reads d index.dbSchema rel.table row index.fields index.primaryKey root) :
    ∃ path ∈ findPaths rel.table [] index.fields, ∃ relation above parentTable parentPk parent,
      path.reverse = relation :: above ∧ Chain db' index root above parentTable parentPk parent ∧
      Touches db' index.dbSchema relation (some parentPk) parent rel.table row := by
  obtain ⟨path, hpath⟩ := List.exists_mem_of_ne_nil _ (findPaths_ne_nil_of_reads hreads [])
  obtain ⟨relation, above, hreverse, -⟩ := exists_path_end hpath
  obtain ⟨pk, hpk⟩ := exists_primaryKey_of_climbable
    ((hobs.ready _ hentry hschema).path htable path hpath relation above hreverse).climbable
  have hkeys : KeysPresent d index.dbSchema := by
    rw [hschema]
    rcases hd with rfl | rfl
    · exact hobs.keysPresent.1
    · exact hobs.keysPresent.2
  have hself := hobs.rootKeys _ hentry pk hpk db' (Or.inr rfl) root hmem
  exact exists_chain_of_reads (hschema ▸ hs) hkeys hreads hpk (.root hpk hmem hself)

omit [LawfulPostgres S] in
/-- The identity columns decide what a relation reads, as far as its link is carried. -/
theorem touches_congr {relation : Relation} {parentPk : Option ColumnName}
    {parent old new : Row S} (ha : Announced rel db index.dbSchema rel.table)
    (hidentity : ∀ column ∈ rel.columns, column.isKey = true →
      old column.name = new column.name) (hcarried : LinkCarried rel relation)
    (h : Touches db index.dbSchema relation parentPk parent rel.table old) :
    Touches db index.dbSchema relation parentPk parent rel.table new := by
  have hlinkEq : ∀ link, linkOnRow relation rel.table = some link → old link = new link := by
    intro link hlink
    obtain ⟨⟨column, hmem, hkey, rfl⟩, -⟩ := hcarried link hlink
    exact hidentity column hmem hkey
  have hpkEq : ∀ pk, tablePrimaryKey db index.dbSchema rel.table = .ok pk → old pk = new pk := by
    intro pk hpk
    obtain ⟨column, hmem, rfl, hkeys, -⟩ := ha.keyOf_single hpk old
    exact hidentity column hmem (ha.isKey_of_keys column hmem hkeys)
  rcases h with ⟨htable, hlinked⟩ | ⟨through, hkey, hthrough, pk, hpk, hequals⟩
  · refine Or.inl ⟨htable, ?_⟩
    unfold Linked at hlinked ⊢
    split at hlinked
    · obtain ⟨pk, hpk, hequals⟩ := hlinked
      exact ⟨pk, hpk, by rwa [← hpkEq pk (htable ▸ hpk)]⟩
    · next foreignKey hkey =>
      have hlink : linkOnRow relation rel.table = some foreignKey := by
        simp only [linkOnRow, hkey]
      obtain ⟨pk, hpk, hequals⟩ := hlinked
      exact ⟨pk, hpk, by rwa [← hlinkEq foreignKey hlink]⟩
    · obtain ⟨pk, hpk, farPk, hfar, junction, hmem, hright, hleft⟩ := hlinked
      exact ⟨pk, hpk, farPk, hfar, junction, hmem, by rwa [← hpkEq farPk (htable ▸ hfar)], hleft⟩
  · have hlink : linkOnRow relation rel.table = some through.leftKey := by
      simp only [linkOnRow, hkey, hthrough, if_true]
    exact Or.inr ⟨through, hkey, hthrough, pk, hpk, by rwa [← hlinkEq _ hlink]⟩

omit [LawfulPostgres S] in
theorem keyOf_congr {old new : Row S} (ha : Announced rel db index.dbSchema rel.table)
    (hidentity : ∀ column ∈ rel.columns, column.isKey = true →
      old column.name = new column.name) : keyOf rel old = keyOf rel new := by
  apply List.map_congr_left
  intro column hcolumn
  obtain ⟨hmem, hkeys⟩ := List.mem_filter.mp hcolumn
  rw [hidentity column hmem (ha.isKey_of_keys column hmem hkeys)]

theorem Observed.resolved_new (hobs : Observed spec rel db db' change)
    (hlinks : LinksCarried spec rel) {new : Row S} (hnew : change.new = some new)
    (hrow : change.Version row) (hsame : row = new ∨ ∀ column ∈ rel.columns,
      column.isKey = true → row column.name = new column.name) {d : Database S}
    (hd : d = db ∨ d = db') (hs : Survives d db' rel.dbSchema rel.table row)
    (hbefore : ∀ image, before = some image → ∃ old,
      change.Version old ∧ imageOf rel old = some image)
    (hentry : (name, index) ∈ spec.indexes) (hschema : index.dbSchema = rel.dbSchema)
    (hroot : index.table = rel.table → findPaths rel.table [] index.fields = [])
    (hreads : DocumentReads d index rel.table row root) :
    ∃ ids, resolve db' spec rel.table (keyOf rel new) before = .ok ids ∧
      Names db' name index root ids := by
  have ha : Announced rel db' index.dbSchema rel.table :=
    hschema ▸ hobs.announced.applied hobs.applied
  have hkeyed : keyOf rel row = keyOf rel new := by
    rcases hsame with rfl | hsame
    · rfl
    · exact keyOf_congr ha hsame
  obtain ⟨hmem, ⟨htable, rfl⟩ | hreads⟩ := hreads
  · exact hobs.resolved_root (Or.inr hnew) hrow (by rw [hkeyed]; exact BEq.rfl) hbefore hentry
      hschema htable
  have htable : index.table ≠ rel.table := fun h => findPaths_ne_nil_of_reads hreads [] (hroot h)
  have hmem' : root ∈ rowsOf db' index.dbSchema index.table := by
    rcases hs.rows index.table root (hschema ▸ hmem) with h | ⟨h, -⟩
    · rwa [hschema]
    · exact absurd h htable
  obtain ⟨path, hpath, relation, above, parentTable, parentPk, parent, hreverse, hchain, htouch⟩ :=
    hobs.exists_chain hentry hschema htable hd hs hmem' hreads
  refine hobs.resolved_path (Or.inr hnew) hbefore hentry hschema htable hpath hreverse hchain ?_
  intro parentType vs harrives _
  refine harrives.current parent hchain.mem hchain.self
    (hschema ▸ hobs.applied.new_mem hnew) ?_
  rcases hsame with rfl | hsame
  · exact htouch
  · exact touches_congr ha hsame (hlinks _ hentry path hpath relation above hreverse) htouch

theorem Observed.resolved_old (hobs : Observed spec rel db db' change)
    (hlinks : LinksCarried spec rel) {old : Row S} (hold : change.old = some old)
    (hrow : change.Version row) (hsame : (keyOf rel old == keyOf rel row) = true)
    (hentry : (name, index) ∈ spec.indexes) (hschema : index.dbSchema = rel.dbSchema)
    (hroot : index.table = rel.table → findPaths rel.table [] index.fields = [])
    (hreads : DocumentReads db index rel.table old root) :
    ∃ ids, resolve db' spec rel.table (keyOf rel row) (imageOf rel old) = .ok ids ∧
      Names db' name index root ids := by
  have hbefore : ∀ image, imageOf rel old = some image → ∃ x,
      change.Version x ∧ imageOf rel x = some image := fun _ h => ⟨old, Or.inl hold, h⟩
  obtain ⟨hmem, ⟨htable, rfl⟩ | hreads⟩ := hreads
  · exact hobs.resolved_root hrow (Or.inl hold) hsame hbefore hentry hschema htable
  have htable : index.table ≠ rel.table := fun h => findPaths_ne_nil_of_reads hreads [] (hroot h)
  have hs := hobs.applied.survives hold
  have hmem' : root ∈ rowsOf db' index.dbSchema index.table := by
    rw [hschema, hobs.applied.rowsOf_elsewhere htable, ← hschema]
    exact hmem
  obtain ⟨path, hpath, relation, above, parentTable, parentPk, parent, hreverse, hchain, htouch⟩ :=
    hobs.exists_chain hentry hschema htable (Or.inl rfl) hs hmem' hreads
  refine hobs.resolved_path hrow hbefore hentry hschema htable hpath hreverse hchain ?_
  intro parentType vs harrives htype
  have hready := (hobs.ready _ hentry hschema).path htable path hpath relation above hreverse
  exact harrives.old old rfl hsame (hready.legible _ _ _ hchain.parentOf_eq htype old (Or.inl hold))
    (hlinks _ hentry path hpath relation above hreverse) parent hchain.mem hchain.self htouch

/-- Where no relation of an index leads to its own root table, a change resolves to every
document that reads the row. -/
theorem complete_of_no_root_paths
    (hroot : ∀ entry ∈ spec.indexes, findPaths entry.2.table [] entry.2.fields = []) :
    Complete S spec := by
  intro rel db db' change hobs hlinks
  obtain ⟨events, hevents, hall, hnew, hold⟩ := hobs.announced.events_spec hobs.sent
  have hbefore : ∀ event ∈ events, ∀ image, event.before = some image → ∃ old,
      change.Version old ∧ imageOf rel old = some image := by
    intro event hevent image himage
    obtain ⟨-, -, hnone | ⟨old, hold, hbefore⟩⟩ := hall event hevent
    · rw [hnone] at himage
      cases himage
    · exact ⟨old, Or.inl hold, hbefore ▸ himage⟩
  refine ⟨events, hevents, fun ⟨name, index⟩ hentry hschema root => ⟨?_, ?_⟩⟩
  · intro old hchange hreads
    have hpaths : index.table = rel.table → findPaths rel.table [] index.fields = [] :=
      fun h => h ▸ hroot _ hentry
    rcases hold old hchange with ⟨event, hevent, hkey, himage⟩ | ⟨new, hchange', hidentity⟩
    · obtain ⟨htable, ⟨row, hrow, hrowKey⟩, -⟩ := hall event hevent
      refine ⟨event, hevent, ?_⟩
      rw [Resolved, htable, hrowKey, himage]
      exact hobs.resolved_old hlinks hchange hrow (hrowKey ▸ hkey) hentry hschema hpaths hreads
    · obtain ⟨event, hevent, hkey⟩ := hnew new hchange'
      refine ⟨event, hevent, ?_⟩
      rw [Resolved, (hall event hevent).1, hkey]
      exact hobs.resolved_new hlinks hchange' (Or.inl hchange) (Or.inr hidentity) (Or.inl rfl)
        (hobs.applied.survives hchange) (hbefore event hevent) hentry hschema hpaths hreads
  · intro new hchange hreads
    have hpaths : index.table = rel.table → findPaths rel.table [] index.fields = [] :=
      fun h => h ▸ hroot _ hentry
    obtain ⟨event, hevent, hkey⟩ := hnew new hchange
    refine ⟨event, hevent, ?_⟩
    rw [Resolved, (hall event hevent).1, hkey]
    exact hobs.resolved_new hlinks hchange (Or.inr hchange) (Or.inl rfl) (Or.inr rfl)
      (.refl db' rel.dbSchema rel.table new) (hbefore event hevent) hentry hschema hpaths hreads

end Completeness

end Flusso.Document
