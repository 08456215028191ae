import Flusso.Document.Batches
import Flusso.Document.Coverage

/-! # Building from the tables that are streamed

What is fetched before a query is built, the query and what it returns depend on the
tables of the index alone. A document is built the same over databases that agree on
them.
-/

namespace Flusso.Document

open SourceSpec

section Fetched

variable {S : Type} {db db' : Database S} {index : IndexSchema} {fields : List Field}
  {table : TableName} {column : ColumnName}

/-- The tables of an index: its root, and every table a relation reads. -/
def ReadsAny (index : IndexSchema) (table : TableName) : Prop :=
  index.table = table ∨ ∃ relation ∈ relationsOf index.fields, hits relation table = true

/-- Databases that hold the same in the tables of an index. -/
def SameForIndex (db db' : Database S) (index : IndexSchema) : Prop :=
  ∀ table, ReadsAny index table → db index.dbSchema table = db' index.dbSchema table

theorem exists_of_mem_collected {α : Type} {own : Field → List α} {collect : List Field → List α}
    (hnil : collect [] = []) (hcons : ∀ f fs, collect (f :: fs) = own f ++ collect fs)
    {p : Field → α → Prop} (h : ∀ f ∈ fields, ∀ x ∈ own f, p f x) :
    ∀ x ∈ collect fields, ∃ f ∈ fields, p f x := by
  induction fields with
  | nil =>
    rw [hnil]
    exact List.forall_mem_nil _
  | cons f fields ih =>
    obtain ⟨hf, hfields⟩ := List.forall_mem_cons.mp h
    intro x hx
    rw [hcons] at hx
    rcases List.mem_append.mp hx with hx | hx
    · exact ⟨f, List.mem_cons_self, hf x hx⟩
    · obtain ⟨g, hg, hp⟩ := ih hfields x hx
      exact ⟨g, List.mem_cons_of_mem _ hg, hp⟩

theorem exists_of_mem_relationTables {p : Field → TableName → Prop}
    (h : ∀ f ∈ fields, ∀ table ∈ fieldTables f, p f table) :
    ∀ table ∈ collectRelationTables fields, ∃ f ∈ fields, p f table :=
  exists_of_mem_collected rfl (fun _ _ => rfl) h

theorem exists_of_mem_filterColumns {p : Field → TableName × ColumnName → Prop}
    (h : ∀ f ∈ fields, ∀ key ∈ fieldFilterColumns f, p f key) :
    ∀ key ∈ collectFilterColumns fields, ∃ f ∈ fields, p f key :=
  exists_of_mem_collected rfl (fun _ _ => rfl) h

theorem hits_of_mem_fieldTables (f : Field) : ∀ table ∈ fieldTables f,
    ∃ relation ∈ fieldRelations f, hits relation table = true := by
  induction f using Field.induct with
  | node f ih =>
    cases f with
    | group field options fields =>
      intro table htable
      exact exists_relationsOf.mpr (exists_of_mem_relationTables ih table htable)
    | join field options source fields =>
      intro table htable
      rcases List.mem_cons.mp htable with rfl | htable
      · exact ⟨_, List.mem_cons_self, hits_iff.mpr (.inl rfl)⟩
      · obtain ⟨relation, hrelation, hhit⟩ :=
          exists_relationsOf.mpr (exists_of_mem_relationTables ih table htable)
        exact ⟨relation, List.mem_cons_of_mem _ hrelation, hhit⟩
    | aggregate field options source =>
      intro table htable
      rw [List.mem_singleton.mp htable]
      exact ⟨_, List.mem_singleton_self _, hits_iff.mpr (.inl rfl)⟩
    | _ => exact List.forall_mem_nil _

theorem table_of_mem_pushValueOps {fs : Option (List Filter)} {key : TableName × ColumnName}
    (h : key ∈ pushValueOps table fs) : key.1 = table := by
  obtain ⟨f, -, hf⟩ := List.mem_filterMap.mp h
  cases f with
  | valueOp column op value =>
    cases hf
    rfl
  | _ => cases hf

theorem hits_of_mem_relationColumns {relation : Relation} {key : TableName × ColumnName}
    (h : key ∈ relationColumns relation) : hits relation key.1 = true := by
  rw [hits_iff]
  rcases List.mem_append.mp h with h | h
  · exact .inl (table_of_mem_pushValueOps h).symm
  · cases hkey : relation.key with
    | through through =>
      rw [hkey] at h
      exact .inr ⟨through, rfl, (table_of_mem_pushValueOps h).symm⟩
    | _ =>
      rw [hkey] at h
      cases h

theorem hits_of_mem_fieldFilterColumns (f : Field) : ∀ key ∈ fieldFilterColumns f,
    ∃ relation ∈ fieldRelations f, hits relation key.1 = true := by
  induction f using Field.induct with
  | node f ih =>
    cases f with
    | group field options fields =>
      intro key hkey
      exact exists_relationsOf.mpr (exists_of_mem_filterColumns ih key hkey)
    | join field options source fields =>
      intro key hkey
      rcases List.mem_append.mp hkey with hkey | hkey
      · exact ⟨_, List.mem_cons_self, hits_of_mem_relationColumns hkey⟩
      · obtain ⟨relation, hrelation, hhit⟩ :=
          exists_relationsOf.mpr (exists_of_mem_filterColumns ih key hkey)
        exact ⟨relation, List.mem_cons_of_mem _ hrelation, hhit⟩
    | aggregate field options source =>
      intro key hkey
      exact ⟨_, List.mem_singleton_self _, hits_of_mem_relationColumns hkey⟩
    | _ => exact List.forall_mem_nil _

theorem mapM_congr {α β ε : Type} {f g : α → Except ε β} {l : List α} (h : ∀ a ∈ l, f a = g a) :
    l.mapM f = l.mapM g := by
  induction l with
  | nil => rfl
  | cons a l ih =>
    obtain ⟨ha, hl⟩ := List.forall_mem_cons.mp h
    rw [List.mapM_cons, List.mapM_cons, ha, ih hl]

theorem foldlM_congr {α β ε : Type} {f g : β → α → Except ε β} {l : List α} {b : β}
    (h : ∀ a ∈ l, ∀ b, f b a = g b a) : l.foldlM f b = l.foldlM g b := by
  induction l generalizing b with
  | nil => rfl
  | cons a l ih =>
    obtain ⟨ha, hl⟩ := List.forall_mem_cons.mp h
    rw [List.foldlM_cons, List.foldlM_cons, ha]
    congr 1
    funext b
    exact ih hl

theorem relationPks_congr (h : SameForIndex db db' index) :
    relationPks db index = relationPks db' index := by
  apply mapM_congr
  intro table htable
  obtain ⟨relation, hrelation, hhit⟩ := exists_relationsOf.mpr
    (exists_of_mem_relationTables (fun f _ => hits_of_mem_fieldTables f) table
      (List.mem_eraseDups.mp htable))
  rw [tablePrimaryKey, tablePrimaryKey, tableOf, tableOf,
    h table (.inr ⟨relation, hrelation, hhit⟩)]

theorem addColumnType_congr {columns : List (TableName × ColumnName)} {types : Types}
    (h : SameForIndex db db' index) (hcolumns : ∀ key ∈ columns, ReadsAny index key.1) :
    columns.foldlM (addColumnType db index) types =
      columns.foldlM (addColumnType db' index) types := by
  apply foldlM_congr
  intro key hkey types
  rw [addColumnType, addColumnType, columnType, columnType, tableOf, tableOf,
    h key.1 (hcolumns key hkey)]

theorem filterColumnTypes_congr (h : SameForIndex db db' index) :
    filterColumnTypes db index = filterColumnTypes db' index := by
  apply addColumnType_congr h
  intro key hkey
  rcases List.mem_append.mp hkey with hkey | hkey
  · rcases List.mem_append.mp hkey with hkey | hkey
    · exact .inr (exists_relationsOf.mpr
        (exists_of_mem_filterColumns (fun f _ => hits_of_mem_fieldFilterColumns f) key hkey))
    · exact .inl (table_of_mem_pushValueOps hkey).symm
  · exact .inl (table_of_mem_pushValueOps hkey).symm

theorem buildManyQuery_congr {pkColumn : ColumnName} {keys : List GenericValue}
    (h : SameForIndex db db' index) :
    buildManyQuery db index pkColumn keys = buildManyQuery db' index pkColumn keys := by
  have hkeys : ∀ types, addKeyColumnTypes db index [pkColumn] types =
      addKeyColumnTypes db' index [pkColumn] types := by
    intro types
    apply addColumnType_congr h
    intro entry hentry
    obtain ⟨column, -, rfl⟩ := List.mem_map.mp hentry
    exact .inl rfl
  simp only [buildManyQuery, relationPks_congr h, filterColumnTypes_congr h, hkeys]

theorem buildManyQuery_ok {pkColumn : ColumnName} {keys : List GenericValue}
    {query : DocumentQuery × List GenericValue}
    (h : buildManyQuery db index pkColumn keys = .ok query) :
    ∃ pks types types', relationPks db index = .ok pks ∧ filterColumnTypes db index = .ok types ∧
      addKeyColumnTypes db index [pkColumn] types = .ok types' ∧
      documentsQuery (found pks) (fun table column => found types' (table, column)) index pkColumn
        keys = .ok query := by
  obtain ⟨pks, hpks, h⟩ := Attempts.bind_ok.mp h
  obtain ⟨types, htypes, h⟩ := Attempts.bind_ok.mp h
  obtain ⟨types', hkeys, h⟩ := Attempts.bind_ok.mp h
  exact ⟨pks, types, types', mapError_ok.mp hpks, mapError_ok.mp htypes, mapError_ok.mp hkeys,
    mapError_ok.mp h⟩

theorem buildQuery_congr {key : RowKey GenericValue} (h : SameForIndex db db' index) :
    buildQuery db index key = buildQuery db' index key := by
  have hkeys : ∀ types, addKeyColumnTypes db index (key.map Prod.fst) types =
      addKeyColumnTypes db' index (key.map Prod.fst) types := by
    intro types
    apply addColumnType_congr h
    intro entry hentry
    obtain ⟨column, -, rfl⟩ := List.mem_map.mp hentry
    exact .inl rfl
  simp only [buildQuery, relationPks_congr h, filterColumnTypes_congr h, hkeys]

end Fetched

section Run

variable {S : Type} [Postgres S] [Sql.Values S] {db db' : Database S} {index : IndexSchema}
  {dbSchema : DatabaseSchema} {table : TableName}

omit [Postgres S] [Sql.Values S] in
theorem SameForIndex.sameFor (h : SameForIndex db db' index) :
    ∀ relation ∈ relationsOf index.fields, SameFor db db' index.dbSchema relation :=
  fun relation hrelation t hhit => h t (.inr ⟨relation, hrelation, hhit⟩)

omit [Sql.Values S] in
theorem spelled_congr {f : Filter} (h : db dbSchema table = db' dbSchema table) :
    Spelled db dbSchema table f ↔ Spelled db' dbSchema table f := by
  rw [Spelled, Spelled, operandOf_congr h]

omit [Sql.Values S] in
theorem RelationFits.congr {relation : Relation} (hfits : RelationFits db dbSchema relation)
    (h : SameFor db db' dbSchema relation) : RelationFits db' dbSchema relation := by
  have htarget : db dbSchema relation.table = db' dbSchema relation.table :=
    h relation.table (hits_iff.mpr (.inl rfl))
  have hjunction : ∀ through, relation.key = .through through →
      db dbSchema through.table = db' dbSchema through.table :=
    fun through hkey => h through.table (hits_iff.mpr (.inr ⟨through, hkey, rfl⟩))
  refine ⟨htarget ▸ hfits.table, ?_, ?_, ?_⟩
  · exact fun f hf => (spelled_congr htarget).mp (hfits.filters f hf)
  · exact fun through hkey => hjunction through hkey ▸ hfits.junction through hkey
  · exact fun through hkey f hf =>
      (spelled_congr (hjunction through hkey)).mp (hfits.junctionFilters through hkey f hf)

omit [Sql.Values S] in
theorem IndexFits.congr (hfits : IndexFits db index) (h : SameForIndex db db' index) :
    IndexFits db' index := by
  have hroot : db index.dbSchema index.table = db' index.dbSchema index.table := h _ (.inl rfl)
  refine ⟨hroot ▸ hfits.table, ?_, ?_, ?_⟩
  · exact fun relation hrelation =>
      (hfits.relations relation hrelation).congr (h.sameFor relation hrelation)
  · exact fun f hf => (spelled_congr hroot).mp (hfits.filters f hf)
  · exact fun column conditions hmarker f hf =>
      (spelled_congr hroot).mp (hfits.deletion column conditions hmarker f hf)

section Acceptance

variable {raw : RawTexts S} {fields : List Field}

omit [Postgres S] [Sql.Values S] in
theorem storedType_congr (h : db dbSchema table = db' dbSchema table) :
    storedType db dbSchema table = storedType db' dbSchema table := by
  funext column
  rw [storedType, storedType, h]

omit [Postgres S] in
theorem filtersAccepted_congr (h : db dbSchema table = db' dbSchema table) :
    filtersAccepted db raw dbSchema table = filtersAccepted db' raw dbSchema table := by
  have hfilter : filterAccepted db raw dbSchema table = filterAccepted db' raw dbSchema table := by
    funext f
    unfold filterAccepted
    rw [storedType_congr h]
  funext fs
  rw [filtersAccepted, filtersAccepted, hfilter]

omit [Postgres S] in
theorem columnsCompare_congr {other : TableName} (h : db dbSchema table = db' dbSchema table)
    (hother : db dbSchema other = db' dbSchema other) (column column' : ColumnName) :
    columnsCompare db dbSchema table column other column' =
      columnsCompare db' dbSchema table column other column' := by
  rw [columnsCompare, columnsCompare, storedType_congr h, storedType_congr hother]

omit [Postgres S] in
theorem joinAccepted_congr {join : Join} {pk : Option ColumnName}
    (h : db dbSchema table = db' dbSchema table) (hjoin : SameFor db db' dbSchema (.join join)) :
    joinAccepted db raw dbSchema join table pk = joinAccepted db' raw dbSchema join table pk := by
  have htarget : db dbSchema join.table = db' dbSchema join.table :=
    hjoin join.table (hits_iff.mpr (.inl rfl))
  have horder : orderByAccepted db dbSchema join.table = orderByAccepted db' dbSchema join.table := by
    funext orderBy
    rw [orderByAccepted, orderByAccepted, storedType_congr htarget]
  unfold joinAccepted tableExists
  rw [htarget, filtersAccepted_congr htarget, horder, keyColumn_congr htarget]
  cases hkind : join.kind with
  | manyToMany through =>
    have hthrough : db dbSchema through.table = db' dbSchema through.table := by
      refine hjoin through.table (hits_iff.mpr (.inr ⟨through, ?_, rfl⟩))
      rw [Relation.key, hkind]
    simp only [hthrough, filtersAccepted_congr hthrough, columnsCompare_congr hthrough h,
      columnsCompare_congr hthrough htarget]
  | _ => simp only [columnsCompare_congr htarget h]

omit [Postgres S] in
theorem aggregateAccepted_congr {aggregate : Aggregate} {pk : Option ColumnName}
    (h : db dbSchema table = db' dbSchema table)
    (haggregate : SameFor db db' dbSchema (.aggregate aggregate)) :
    aggregateAccepted db raw dbSchema aggregate table pk =
      aggregateAccepted db' raw dbSchema aggregate table pk := by
  have htarget : db dbSchema aggregate.table = db' dbSchema aggregate.table :=
    haggregate aggregate.table (hits_iff.mpr (.inl rfl))
  have hfold : foldAccepted db dbSchema aggregate.op aggregate.table =
      foldAccepted db' dbSchema aggregate.op aggregate.table := by
    unfold foldAccepted
    rw [storedType_congr htarget, keyColumn_congr htarget]
  unfold aggregateAccepted tableExists
  dsimp only
  rw [htarget, filtersAccepted_congr htarget, hfold, keyColumn_congr htarget]
  cases hkey : aggregate.key with
  | direct foreignKey => simp only [columnsCompare_congr htarget h]
  | through through =>
    have hthrough : db dbSchema through.table = db' dbSchema through.table := by
      refine haggregate through.table (hits_iff.mpr (.inr ⟨through, ?_, rfl⟩))
      rw [Relation.key, hkey]
    simp only [hthrough, filtersAccepted_congr hthrough, columnsCompare_congr hthrough h,
      columnsCompare_congr hthrough htarget, columnsCompare_congr htarget hthrough]

omit [Postgres S] in
theorem fieldsAccepted_congr_of {pk : Option ColumnName}
    (h : ∀ f ∈ fields, fieldAccepted db raw dbSchema f table pk =
      fieldAccepted db' raw dbSchema f table pk) :
    fieldsAccepted db raw dbSchema fields table pk =
      fieldsAccepted db' raw dbSchema fields table pk := by
  induction fields with
  | nil => rfl
  | cons f fields ih =>
    obtain ⟨hf, hfields⟩ := List.forall_mem_cons.mp h
    rw [fieldsAccepted, fieldsAccepted, hf, ih hfields]

omit [Postgres S] in
theorem fieldAccepted_congr (f : Field) : ∀ (table : TableName) (pk : Option ColumnName),
    db dbSchema table = db' dbSchema table →
    (∀ relation ∈ fieldRelations f, SameFor db db' dbSchema relation) →
    fieldAccepted db raw dbSchema f table pk = fieldAccepted db' raw dbSchema f table pk := by
  induction f using Field.induct with
  | node f ih =>
    intro table pk htable hrelations
    cases f with
    | column field options source =>
      rw [fieldAccepted, fieldAccepted, columnAccepted, columnAccepted, storedType_congr htable]
    | geo field options source => rw [fieldAccepted, fieldAccepted, storedType_congr htable]
    | constant field options value => rw [fieldAccepted, fieldAccepted]
    | aggregate field options source =>
      rw [fieldAccepted, fieldAccepted,
        aggregateAccepted_congr htable (hrelations _ (List.mem_singleton_self _))]
    | group field options fields =>
      exact fieldsAccepted_congr_of fun g hg =>
        ih g hg table pk htable (sameFor_of_mem hg hrelations)
    | join field options source fields =>
      have hsource : SameFor db db' dbSchema (.join source) := hrelations _ List.mem_cons_self
      have htarget := hsource source.table (hits_iff.mpr (.inl rfl))
      have hfields : ∀ pk, fieldsAccepted db raw dbSchema fields source.table pk =
          fieldsAccepted db' raw dbSchema fields source.table pk := fun pk =>
        fieldsAccepted_congr_of fun g hg => ih g hg source.table pk htarget
          (sameFor_of_mem hg fun relation hrelation =>
            hrelations relation (List.mem_cons_of_mem _ hrelation))
      rw [fieldAccepted, fieldAccepted, joinAccepted_congr htable hsource,
        keyColumn_congr htarget, hfields]

omit [Postgres S] in
theorem keyAccepted_congr (h : SameForIndex db db' index) :
    keyAccepted db index = keyAccepted db' index := by
  have hroot : db index.dbSchema index.table = db' index.dbSchema index.table := h _ (.inl rfl)
  funext columns
  simp only [keyAccepted, columnsCompare_congr hroot hroot]

omit [Postgres S] in
theorem indexAccepted_congr (h : SameForIndex db db' index) :
    indexAccepted db index raw = indexAccepted db' index raw := by
  have hroot : db index.dbSchema index.table = db' index.dbSchema index.table := h _ (.inl rfl)
  have hfields : fieldsAccepted db raw index.dbSchema index.fields index.table index.primaryKey =
      fieldsAccepted db' raw index.dbSchema index.fields index.table index.primaryKey :=
    fieldsAccepted_congr_of fun f hf => fieldAccepted_congr f index.table index.primaryKey hroot
      (sameFor_of_mem hf h.sameFor)
  unfold indexAccepted deletionAccepted tableExists
  rw [hfields, hroot, filtersAccepted_congr hroot, storedType_congr hroot]

end Acceptance

omit [Sql.Values S] in
theorem keyOperands_congr {key : RowKey GenericValue} (h : SameForIndex db db' index) :
    keyOperands db index key = keyOperands db' index key := by
  have hroot : db index.dbSchema index.table = db' index.dbSchema index.table := h _ (.inl rfl)
  simp only [keyOperands, typeName_congr hroot]

variable [Sql.LawfulValues S] [Decimals] [Times] {pool : Pool S} {spec : SourceSpec}
  {schema : IndexSchema}

/-- A document is built from the tables of its index alone. -/
theorem build_congr {id : DocumentId GenericValue} {operands : List (ColumnName × S)}
    (hschema : spec.schema id.index = some schema) (hfits : IndexFits pool.db schema)
    (hoperands : keyOperands pool.db schema id.key = some operands)
    (h : SameForIndex pool.db db' schema) :
    build { pool with db := db' } spec id = build pool spec id := by
  have hschemaOf : schemaOf spec id.index = .ok schema := by rw [schemaOf, hschema]
  have hroot : pool.db schema.dbSchema schema.table = db' schema.dbSchema schema.table :=
    h _ (.inl rfl)
  have hindexed : indexed pool.db schema = indexed db' schema := by
    funext row
    exact indexed_congr hroot
  cases hquery : buildQuery pool.db schema id.key with
  | error e => simp only [build, hschemaOf, bind, Except.bind, ← buildQuery_congr h, hquery,
      Except.mapError]
  | ok query =>
    obtain ⟨q, params⟩ := query
    have hquery' : buildQuery db' schema id.key = .ok (q, params) := by
      rw [← buildQuery_congr h, hquery]
    obtain ⟨pks, types, types', hpks, htypes, hkeys, hdocument⟩ := buildQuery_ok hquery
    obtain ⟨pks', types₂, types₂', hpks', htypes', hkeys', hdocument'⟩ := buildQuery_ok hquery'
    have hrun : q.run (session pool.db pool.raw params) = _ :=
      documentQuery_run (catalog_of_fetched hpks htypes hkeys) hfits hdocument hoperands
    have hrun' : q.run (session db' pool.raw params) = _ :=
      documentQuery_run (catalog_of_fetched hpks' htypes' hkeys') (hfits.congr h) hdocument'
        ((keyOperands_congr h).symm.trans hoperands)
    have hfetch : fetch { pool with db := db' } (q, params) = fetch pool (q, params) := by
      simp only [fetch, hrun, hrun', hindexed, rowsOf_congr hroot,
        documentContents_congr hroot h.sameFor, keyAccepted_congr h, indexAccepted_congr h]
    simp only [build, hschemaOf, hquery, hquery', hfetch, bind, Except.bind, Except.mapError]
    rfl

theorem buildKeyed_congr {pkColumn : ColumnName} {operands : List S}
    {chunk : List (GenericValue × DocumentId GenericValue)} (hfits : IndexFits pool.db schema)
    (hoperands : (chunk.map Prod.fst).mapM
      (Postgres.cast (typeName pool.db schema.dbSchema schema.table pkColumn)) = some operands)
    (h : SameForIndex pool.db db' schema) :
    buildKeyed { pool with db := db' } schema pkColumn chunk =
      buildKeyed pool schema pkColumn chunk := by
  have hroot : pool.db schema.dbSchema schema.table = db' schema.dbSchema schema.table :=
    h _ (.inl rfl)
  have hindexed : indexed pool.db schema = indexed db' schema := by
    funext row
    exact indexed_congr hroot
  cases hquery : buildManyQuery pool.db schema pkColumn (chunk.map Prod.fst) with
  | error e => simp only [buildKeyed, ← buildManyQuery_congr h, hquery, bind, Except.bind,
      Except.mapError]
  | ok query =>
    obtain ⟨q, params⟩ := query
    have hquery' : buildManyQuery db' schema pkColumn (chunk.map Prod.fst) = .ok (q, params) := by
      rw [← buildManyQuery_congr h, hquery]
    obtain ⟨pks, types, types', hpks, htypes, hkeys, hdocuments⟩ := buildManyQuery_ok hquery
    obtain ⟨pks', types₂, types₂', hpks', htypes', hkeys', hdocuments'⟩ :=
      buildManyQuery_ok hquery'
    rw [typeName_congr hroot] at hoperands
    have hrun : q.run (session db' pool.raw params) = _ :=
      documentsQuery_run (catalog_of_fetched hpks' htypes' hkeys') (hfits.congr h) hdocuments'
        hoperands
    rw [← typeName_congr hroot] at hoperands
    have hrun' : q.run (session pool.db pool.raw params) = _ :=
      documentsQuery_run (catalog_of_fetched hpks htypes hkeys) hfits hdocuments hoperands
    have hfetch : fetch { pool with db := db' } (q, params) = fetch pool (q, params) := by
      simp only [fetch, hrun, hrun', hindexed, rowsOf_congr hroot,
        documentContents_congr hroot h.sameFor, keyAccepted_congr h, indexAccepted_congr h]
    simp only [buildKeyed, hquery, hquery', hfetch, bind, Except.bind, Except.mapError]
    rfl

/-- What a batch asks of its ids: their indexes fit, and their keys spell values of their own
columns and, fetched together, of the key column. -/
structure Addressed (db : Database S) (spec : SourceSpec) (id : DocumentId GenericValue) : Prop where
  fits : ∀ schema, spec.schema id.index = some schema → IndexFits db schema
  spelled : ∀ schema, spec.schema id.index = some schema →
    (keyOperands db schema id.key).isSome = true
  keyed : ∀ schema pkColumn entry, spec.schema id.index = some schema →
    schema.primaryKey = some pkColumn → loneKey id = some entry →
      (Postgres.cast (S := S) (typeName db schema.dbSchema schema.table pkColumn)
        entry.1).isSome = true

theorem buildGroup_congr {group : List (DocumentId GenericValue)} {index : IndexName}
    (hschema : spec.schema index = some schema) (hindex : ∀ id ∈ group, id.index = index)
    (hids : ∀ id ∈ group, Addressed pool.db spec id) (h : SameForIndex pool.db db' schema) :
    buildGroup { pool with db := db' } spec schema group = buildGroup pool spec schema group := by
  have hdeclared : ∀ id ∈ group, spec.schema id.index = some schema := fun id hid => by
    rw [hindex id hid, hschema]
  unfold buildGroup
  split
  · next pkColumn keyed hprimaryKey hkeyed =>
    obtain ⟨hgroup, hlone⟩ := mapM_loneKey hkeyed
    have hmem : ∀ entry ∈ keyed, entry.2 ∈ group := fun entry hentry =>
      hgroup ▸ List.mem_map_of_mem hentry
    congr 1
    apply mapM_congr
    intro chunk hchunk
    have hsub : chunk.Sublist keyed := by
      rw [← Sql.flatten_toChunks buildChunk keyed]
      exact List.sublist_flatten_of_mem hchunk
    obtain ⟨first, hfirst⟩ :=
      List.exists_mem_of_ne_nil chunk (Grouping.ne_nil_of_mem_toChunks hchunk)
    have hfirst := hmem first (hsub.subset hfirst)
    obtain ⟨operands, hoperands, -⟩ := Grouping.exists_mapM_option (l := chunk.map Prod.fst)
      (f := Postgres.cast (S := S)
        (typeName pool.db schema.dbSchema schema.table pkColumn)) <| by
      rintro v hv
      obtain ⟨entry, hentry, rfl⟩ := List.mem_map.mp hv
      have hentry := hsub.subset hentry
      exact (hids _ (hmem entry hentry)).keyed schema pkColumn entry
        (hdeclared _ (hmem entry hentry)) hprimaryKey (hlone entry hentry)
    exact buildKeyed_congr ((hids _ hfirst).fits schema (hdeclared _ hfirst)) hoperands h
  · apply mapM_congr
    intro id hid
    obtain ⟨operands, hoperands⟩ := Option.isSome_iff_exists.mp
      ((hids id hid).spelled schema (hdeclared id hid))
    exact build_congr (hdeclared id hid) ((hids id hid).fits schema (hdeclared id hid)) hoperands h

omit [Postgres S] [Sql.Values S] [Sql.LawfulValues S] [Decimals] [Times] in
/-- A source asks for changes of every table its documents are made of. -/
theorem mem_allTables_of_readsAny {entry : IndexName × IndexSchema} (hentry : entry ∈ spec.indexes)
    (h : ReadsAny entry.2 table) : ⟨entry.2.dbSchema, table⟩ ∈ spec.allTables := by
  refine List.mem_flatMap.mpr ⟨entry, hentry, ?_⟩
  rcases h with rfl | ⟨relation, hrelation, hhit⟩
  · exact List.mem_cons_self
  · exact List.mem_cons_of_mem _
      (SourceSpec.mem_collectRelationTables.mpr ⟨relation, hrelation, rfl, hhit⟩)

/-- Once a source has started with tables it may publish and none of them partitioned, a document
is built the same whatever the tables hold that its publication does not stream. -/
theorem build_of_streamed {s s' : Cdc.Server} {name : String} {n : ℕ}
    {entry : IndexName × IndexSchema} {id : DocumentId GenericValue}
    (hstarts : Cdc.starts name spec.allTables (n + 1) s = .ok s')
    (hmanageable : (Cdc.inspectPublication s name spec.allTables).manageable = true)
    (hplain : ∀ t ∈ spec.allTables, s.IsPlain t)
    (h : ∀ t, s'.streams name t = true → pool.db t.schema t.table = db' t.schema t.table)
    (hentry : entry ∈ spec.indexes) (hid : id.index = entry.1)
    (hfits : IndexFits pool.db entry.2)
    (hoperands : (keyOperands pool.db entry.2 id.key).isSome = true) :
    build { pool with db := db' } spec id = build pool spec id := by
  have hschema : spec.schema id.index = some entry.2 := by
    rw [hid]
    exact SourceSpec.schema_of_mem hentry
  obtain ⟨operands, hoperands⟩ := Option.isSome_iff_exists.mp hoperands
  apply build_congr hschema hfits hoperands
  intro table hreads
  have hmem := mem_allTables_of_readsAny hentry hreads
  exact h _ ((Cdc.streams_of_starts hstarts hmanageable hmem).mpr (hplain _ hmem))

/-- Once a source has started with tables it may publish and none of them partitioned, a batch is
built the same whatever the tables hold that its publication does not stream. -/
theorem buildMany_of_streamed {s s' : Cdc.Server} {name : String} {n : ℕ} {order : List IndexName}
    {ids : List (DocumentId GenericValue)}
    (hstarts : Cdc.starts name spec.allTables (n + 1) s = .ok s')
    (hmanageable : (Cdc.inspectPublication s name spec.allTables).manageable = true)
    (hplain : ∀ t ∈ spec.allTables, s.IsPlain t)
    (h : ∀ t, s'.streams name t = true → pool.db t.schema t.table = db' t.schema t.table)
    (hids : ∀ id ∈ ids, Addressed pool.db spec id) :
    buildMany { pool with db := db' } spec order ids = buildMany pool spec order ids := by
  have hsame : ∀ entry ∈ spec.indexes, SameForIndex pool.db db' entry.2 := by
    intro entry hentry table hreads
    have hmem := mem_allTables_of_readsAny hentry hreads
    exact h _ ((Cdc.streams_of_starts hstarts hmanageable hmem).mpr (hplain _ hmem))
  unfold buildMany
  congr 1
  apply mapM_congr
  intro index _
  cases hschema : spec.schema index with
  | none => simp only [schemaOf, hschema, bind, Except.bind]
  | some schema =>
    have hgroup : buildGroup { pool with db := db' } spec schema
        (ids.filter fun id => id.index = index) =
          buildGroup pool spec schema (ids.filter fun id => id.index = index) := by
      refine buildGroup_congr hschema (fun id hid => by simpa using (List.mem_filter.mp hid).2)
        (fun id hid => hids id (List.mem_filter.mp hid).1) ?_
      obtain ⟨entry, hentry, rfl⟩ := Option.map_eq_some_iff.mp hschema
      exact hsame entry (List.mem_of_find?_eq_some hentry)
    simp only [schemaOf, hschema, bind, Except.bind, hgroup]

end Run

section Example

attribute [local instance] exactDecimals noTimes

theorem indexFits_besideUsers (other : Option (Table (Option String))) :
    IndexFits (besideUsers other) (sourcedUsers (.string "crm")) := by
  refine ⟨rfl, ?_, ?_, ?_⟩
  · exact fun _ h => absurd h List.not_mem_nil
  · exact fun _ h => absurd h List.not_mem_nil
  · rintro _ _ ⟨⟩

def ordersPool : Pool (Option String) :=
  ⟨besideUsers (usersDatabase ⟨"public"⟩ ⟨"orders"⟩), fun _ => none, fun _ => .null⟩

/-- A user is built the same where there are orders and where there are none. -/
theorem build_of_streamed_users :
    build { ordersPool with db := besideUsers none } sourcedSpec
        ⟨⟨"users"⟩, [(⟨"id"⟩, .string "1")]⟩ =
      build ordersPool sourcedSpec ⟨⟨"users"⟩, [(⟨"id"⟩, .string "1")]⟩ := by
  have hstarts : Cdc.starts "flusso" sourcedSpec.allTables (0 + 1) Cdc.usersServer =
      .ok (Cdc.usersServer.withPublication "flusso"
        ⟨true, false, [⟨⟨"public"⟩, ⟨"users"⟩⟩]⟩) := rfl
  have hentry : (⟨"users"⟩, sourcedUsers (.string "crm")) ∈ sourcedSpec.indexes :=
    List.mem_cons_self
  exact build_of_streamed hstarts rfl plain_sourcedSpec (fun t ht => besideUsers_of_streamed ht)
    hentry rfl (indexFits_besideUsers _) rfl

theorem addressed_user (other : Option (Table (Option String))) (id : String) :
    Addressed (besideUsers other) sourcedSpec ⟨⟨"users"⟩, [(⟨"id"⟩, .string id)]⟩ := by
  have hdeclared : ∀ schema, sourcedSpec.schema ⟨"users"⟩ = some schema →
      sourcedUsers (.string "crm") = schema := fun schema h => Option.some.inj h
  refine ⟨?_, ?_, ?_⟩
  · rintro schema hschema
    obtain rfl := hdeclared schema hschema
    exact indexFits_besideUsers other
  · rintro schema hschema
    obtain rfl := hdeclared schema hschema
    rfl
  · rintro schema pkColumn entry hschema _ hentry
    obtain rfl := hdeclared schema hschema
    obtain rfl := Option.some.inj hentry
    rfl

/-- Two users are fetched together the same where there are orders and where there are none. -/
theorem buildMany_of_streamed_users :
    buildMany { ordersPool with db := besideUsers none } sourcedSpec [⟨"users"⟩]
        [⟨⟨"users"⟩, [(⟨"id"⟩, .string "1")]⟩, ⟨⟨"users"⟩, [(⟨"id"⟩, .string "2")]⟩] =
      buildMany ordersPool sourcedSpec [⟨"users"⟩]
        [⟨⟨"users"⟩, [(⟨"id"⟩, .string "1")]⟩, ⟨⟨"users"⟩, [(⟨"id"⟩, .string "2")]⟩] := by
  have hstarts : Cdc.starts "flusso" sourcedSpec.allTables (0 + 1) Cdc.usersServer =
      .ok (Cdc.usersServer.withPublication "flusso"
        ⟨true, false, [⟨⟨"public"⟩, ⟨"users"⟩⟩]⟩) := rfl
  refine buildMany_of_streamed hstarts rfl plain_sourcedSpec
    (fun t ht => besideUsers_of_streamed ht) ?_
  intro id hid
  rcases List.mem_pair.mp hid with rfl | rfl
  · exact addressed_user _ "1"
  · exact addressed_user _ "2"

end Example

end Flusso.Document
