import Flusso.Document.Assembly

/-! # What is fetched before a query is built

Three walks over a schema gather the primary keys and the column types a query
needs; another one, the builder's, looks them up.
-/

namespace Flusso.Document

section Collecting

/-- The columns the value filters of a list compare, on the table they run on. -/
def pushValueOps (table : TableName) (fs : Option (List Filter)) : List (TableName × ColumnName) :=
  (fs.getD []).filterMap fun f =>
    match f with
    | .valueOp column _ _ => some (table, column)
    | _ => none

def relationColumns (relation : Relation) : List (TableName × ColumnName) :=
  pushValueOps relation.table relation.filters ++
    match relation.key with
    | .through through => pushValueOps through.table through.filters
    | _ => []

mutual

def fieldFilterColumns : Field → List (TableName × ColumnName)
  | .join _ _ source fields => relationColumns (.join source) ++ collectFilterColumns fields
  | .aggregate _ _ source => relationColumns (.aggregate source)
  | .group _ _ fields => collectFilterColumns fields
  | .column .. | .geo .. | .constant .. => []

/-- Every column a value filter of a relation compares, at any depth. -/
def collectFilterColumns : List Field → List (TableName × ColumnName)
  | [] => []
  | field :: fields => fieldFilterColumns field ++ collectFilterColumns fields

end

/-- The `when` filters of a soft delete. -/
def whenFilters (index : IndexSchema) : Option (List Filter) :=
  match index.softDelete with
  | some (.column _ conditions) | some (.field _ conditions) => conditions
  | none => none

end Collecting

section Fetching

variable {S : Type} (db : Database S) (index : IndexSchema)

abbrev Types := List ((TableName × ColumnName) × String)

/-- The primary key of every relation's table, each table asked for once. -/
def relationPks : Except QueryError (List (TableName × ColumnName)) :=
  (collectRelationTables index.fields).eraseDups.mapM fun table => do
    let pk ← tablePrimaryKey db index.dbSchema table
    pure (table, pk)

/-- What is gathered under a key. -/
def found {κ α : Type} [DecidableEq κ] (entries : List (κ × α)) (key : κ) : Option α :=
  (entries.find? fun entry => entry.1 = key).map Prod.snd

/-- The types with that of a column, unless it is there. -/
def addColumnType (types : Types) (key : TableName × ColumnName) : Except QueryError Types :=
  if (found types key).isSome then pure types
  else do
    let sqlType ← columnType db index.dbSchema key.1 key.2
    pure ((key, sqlType) :: types)

def filterColumnTypes : Except QueryError Types :=
  (collectFilterColumns index.fields ++ pushValueOps index.table (whenFilters index) ++
    pushValueOps index.table index.filters).foldlM (addColumnType db index) []

def addKeyColumnTypes (columns : List ColumnName) (types : Types) : Except QueryError Types :=
  (columns.map fun column => (index.table, column)).foldlM (addColumnType db index) types

inductive SourceError where
  | query (error : QueryError)
  | build (error : BuildError)

/-- The query for one document, with what it needs fetched before. -/
def buildQuery (key : RowKey GenericValue) :
    Except SourceError (DocumentQuery × List GenericValue) := do
  let pks ← (relationPks db index).mapError .query
  let types ← (filterColumnTypes db index).mapError .query
  let types ← (addKeyColumnTypes db index (key.map Prod.fst) types).mapError .query
  (documentQuery (found pks) (fun table column => found types (table, column)) index key).mapError
    .build

/-- The query for the documents of many keys. -/
def buildManyQuery (pkColumn : ColumnName) (keys : List GenericValue) :
    Except SourceError (DocumentQuery × List GenericValue) := do
  let pks ← (relationPks db index).mapError .query
  let types ← (filterColumnTypes db index).mapError .query
  let types ← (addKeyColumnTypes db index [pkColumn] types).mapError .query
  (documentsQuery (found pks) (fun table column => found types (table, column)) index pkColumn
    keys).mapError .build

end Fetching

/-- A failed lookup of what should have been fetched. -/
def BuildError.isInternal : BuildError → Bool
  | .missingPrimaryKey _ | .missingType _ _ => true
  | _ => false

/-- A step whose errors are never those of a lookup. -/
def Supplied {β : Type} (m : Build β) : Prop := ∀ b e, m b = .error e → e.isInternal = false

namespace Supplied

variable {β γ : Type} {m : Build β}

theorem pure {x : β} : Supplied (pure x) := by
  rintro b e ⟨⟩

theorem throw {e : BuildError} (h : e.isInternal = false) : Supplied (throw e : Build β) := by
  rintro b _ ⟨⟩
  exact h

theorem bind {f : β → Build γ} (hm : Supplied m) (hf : ∀ x, Supplied (f x)) : Supplied (m >>= f) := by
  intro b e h
  change (m b >>= fun p => f p.1 p.2) = .error e at h
  cases hfirst : m b with
  | error e' =>
    rw [hfirst] at h
    cases h
    exact hm b _ hfirst
  | ok p =>
    rw [hfirst] at h
    exact hf p.1 p.2 e h

theorem map {f : β → γ} (hm : Supplied m) : Supplied (f <$> m) := by
  rw [map_eq_pure_bind]
  exact hm.bind fun _ => pure

theorem mapM {f : β → Build γ} {l : List β} (h : ∀ x ∈ l, Supplied (f x)) : Supplied (l.mapM f) := by
  induction l with
  | nil => exact pure
  | cons x l ih =>
    rw [List.mapM_cons]
    apply bind (h x List.mem_cons_self)
    intro y
    apply bind (ih fun x' hx' => h x' (List.mem_cons_of_mem _ hx'))
    exact fun ys => pure

theorem run {f : β × Builder → γ} {b : Builder} {e : BuildError} (hm : Supplied m)
    (h : (m.run b >>= fun p => .ok (f p)) = .error e) : e.isInternal = false := by
  cases hrun : m b with
  | error e' =>
    change (m b >>= _) = _ at h
    rw [hrun] at h
    cases h
    exact hm b _ hrun
  | ok p =>
    change (m b >>= _) = _ at h
    rw [hrun] at h
    cases h

end Supplied

section Building

variable {schema : DatabaseSchema} {pks : TableName → Option ColumnName}
  {colTypes : TableName → ColumnName → Option String} {table : TableName} {a : Alias}

theorem newAlias_supplied : Supplied newAlias := by
  rintro b e ⟨⟩

theorem pkOf_supplied (h : (pks table).isSome = true) : Supplied (pkOf pks table) := by
  obtain ⟨pk, hpk⟩ := Option.isSome_iff_exists.mp h
  rw [pkOf, hpk]
  exact .pure

theorem requirePk_supplied {parentPk : Option ColumnName} : Supplied (requirePk parentPk) := by
  cases parentPk with
  | none => exact .throw rfl
  | some pk => exact .pure

theorem placeholder_supplied {value : GenericValue} : Supplied (placeholder value) := by
  intro b e h
  unfold placeholder at h
  split at h
  · cases h
  · cases h
    rfl

theorem typedPlaceholder_supplied {value : GenericValue} {column : ColumnName}
    (h : (colTypes table column).isSome = true) :
    Supplied (typedPlaceholder colTypes value table column) := by
  obtain ⟨sqlType, htype⟩ := Option.isSome_iff_exists.mp h
  rw [typedPlaceholder, htype]
  exact placeholder_supplied.bind fun _ => .pure

theorem valueOp_supplied {column : ColumnName} {op : FilterOp} {value : FilterValue}
    (h : (colTypes table column).isSome = true) :
    Supplied (valueOp colTypes column op value a table) := by
  have hparam (v : String) : Supplied (typedParam colTypes v table column) :=
    typedPlaceholder_supplied h
  cases value with
  | single v =>
    rw [valueOp_single]
    split
    · exact (hparam v).bind fun _ => .pure
    · exact .throw rfl
  | list vs =>
    have hparams : Supplied (vs.mapM fun v => typedParam colTypes v table column) :=
      .mapM fun v _ => hparam v
    rw [valueOp_list]
    split
    · exact hparams.bind fun _ => .pure
    · split
      · exact hparams.bind fun _ => .pure
      · exact .throw rfl
  | range lower upper =>
    rw [valueOp_range]
    split
    · exact (hparam lower).bind fun _ => (hparam upper).bind fun _ => .pure
    · exact .throw rfl

/-- The types of the columns a filter list compares. -/
def Typed (colTypes : TableName → ColumnName → Option String)
    (columns : List (TableName × ColumnName)) : Prop :=
  ∀ column ∈ columns, (colTypes column.1 column.2).isSome = true

theorem filters_supplied {fs : Option (List Filter)} (h : Typed colTypes (pushValueOps table fs)) :
    Supplied (filters colTypes fs a table) := by
  apply Supplied.mapM
  intro f hf
  cases f with
  | raw sql => exact .pure
  | nullCheck column op => exact .pure
  | valueOp column op value =>
    apply valueOp_supplied
    exact h (table, column) (List.mem_filterMap.mpr ⟨_, hf, rfl⟩)

/-- What a relation looks up: its table's key, and the types its filters compare with. -/
structure RelationSupplied (pks : TableName → Option ColumnName)
    (colTypes : TableName → ColumnName → Option String) (relation : Relation) : Prop where
  key : (pks relation.table).isSome = true
  types : Typed colTypes (relationColumns relation)

theorem RelationSupplied.filters {relation : Relation}
    (h : RelationSupplied pks colTypes relation) :
    Typed colTypes (pushValueOps relation.table relation.filters) :=
  fun column hcolumn => h.types column (List.mem_append_left _ hcolumn)

theorem RelationSupplied.junction {relation : Relation} {through : Through}
    (h : RelationSupplied pks colTypes relation) (hkey : relation.key = .through through) :
    Typed colTypes (pushValueOps through.table through.filters) := by
  intro column hcolumn
  apply h.types column
  rw [relationColumns, hkey]
  exact List.mem_append_right _ hcolumn

theorem aggregateValue_supplied {aggregate : Aggregate} {parentPk : Option ColumnName}
    (h : RelationSupplied pks colTypes (.aggregate aggregate)) :
    Supplied (aggregateValue schema pks colTypes aggregate a parentPk) := by
  apply requirePk_supplied.bind
  intro pk
  cases hkey : aggregate.key with
  | direct foreignKey =>
    apply newAlias_supplied.bind
    intro far
    have hconditions (fold : Sql.Fold Alias ColumnName) : Supplied (do
        let conditions ← filters colTypes aggregate.filters far aggregate.table
        return Sql.Expr.fold fold (.table (schema, aggregate.table) far)
          (andAll (equal far foreignKey a pk) conditions)) :=
      (filters_supplied h.filters).bind fun _ => .pure
    cases aggregate.op with
    | ids elementType => exact (pkOf_supplied h.key).map.bind hconditions
    | _ => exact Supplied.pure.bind hconditions
  | through through =>
    have hthrough : (Relation.aggregate aggregate).key = .through through := by
      rw [Relation.key, hkey]
    have hjunction := h.junction hthrough
    apply (pkOf_supplied h.key).bind
    intro farPk
    apply newAlias_supplied.bind
    intro far
    apply newAlias_supplied.bind
    intro junction
    apply (filters_supplied hjunction).bind
    intro junctionConditions
    apply (filters_supplied h.filters).bind
    intro conditions
    split <;> exact .pure

mutual

theorem fieldValue_supplied : ∀ {f : Field} {a : Alias} {parentPk : Option ColumnName},
    (∀ relation ∈ fieldRelations f, RelationSupplied pks colTypes relation) →
    Supplied (fieldValue schema pks colTypes f a parentPk)
  | .column .., _, _, _ => .pure
  | .geo .., _, _, _ => .pure
  | .constant .., _, _, _ => .pure
  | .group _ _ fields, a, parentPk, h => by
    have hpairs : Supplied (pairsOf schema pks colTypes fields a parentPk) := pairsOf_supplied h
    exact hpairs.bind fun _ => .pure
  | .aggregate _ _ source, _, _, h => aggregateValue_supplied (h _ (List.mem_singleton_self _))
  | .join _ _ join fields, a, parentPk, h => by
    have hjoin : RelationSupplied pks colTypes (.join join) := h _ List.mem_cons_self
    have hfields (a : Alias) (pk : Option ColumnName) :
        Supplied (pairsOf schema pks colTypes fields a pk) :=
      pairsOf_supplied fun relation hrelation => h relation (List.mem_cons_of_mem _ hrelation)
    rw [fieldValue]
    cases hkind : join.kind with
    | belongsTo column =>
      apply (pkOf_supplied hjoin.key).bind
      intro targetPk
      apply newAlias_supplied.bind
      intro target
      apply (hfields _ _).bind
      exact fun _ => (filters_supplied hjoin.filters).bind fun _ => .pure
    | hasOne foreignKey =>
      apply requirePk_supplied.bind
      intro pk
      apply (pkOf_supplied hjoin.key).bind
      intro childPk
      apply newAlias_supplied.bind
      intro child
      apply (hfields _ _).bind
      exact fun _ => (filters_supplied hjoin.filters).bind fun _ => .pure
    | hasMany foreignKey =>
      apply requirePk_supplied.bind
      intro pk
      apply (pkOf_supplied hjoin.key).bind
      intro childPk
      apply newAlias_supplied.bind
      intro derived
      apply (hfields _ _).bind
      intro pairs
      apply newAlias_supplied.bind
      exact fun _ => (filters_supplied hjoin.filters).bind fun _ => .pure
    | manyToMany through =>
      have hthrough : (Relation.join join).key = .through through := by rw [Relation.key, hkind]
      have hjunction := hjoin.junction hthrough
      apply requirePk_supplied.bind
      intro pk
      apply (pkOf_supplied hjoin.key).bind
      intro farPk
      apply newAlias_supplied.bind
      intro derived
      apply (hfields _ _).bind
      intro pairs
      apply newAlias_supplied.bind
      intro far
      apply newAlias_supplied.bind
      intro junction
      apply (filters_supplied hjoin.filters).bind
      exact fun _ => (filters_supplied hjunction).bind fun _ => .pure

theorem pairsOf_supplied : ∀ {fields : List Field} {a : Alias} {parentPk : Option ColumnName},
    (∀ relation ∈ relationsOf fields, RelationSupplied pks colTypes relation) →
    Supplied (pairsOf schema pks colTypes fields a parentPk)
  | [], _, _, _ => .pure
  | _ :: _, _, _, h =>
    (fieldValue_supplied fun relation hrelation => h relation (List.mem_append_left _ hrelation)).bind
      fun _ => (pairsOf_supplied fun relation hrelation =>
        h relation (List.mem_append_right _ hrelation)).bind fun _ => .pure

end

end Building

section Fetching

variable {S : Type} {db : Database S} {index : IndexSchema}

mutual

theorem mem_fieldTables : ∀ {f : Field} {relation : Relation}, relation ∈ fieldRelations f →
    relation.table ∈ fieldTables f ∧ relationColumns relation ⊆ fieldFilterColumns f
  | .column _ _ _, _, h | .geo _ _ _, _, h | .constant _ _ _, _, h => absurd h List.not_mem_nil
  | .group _ _ _, _, h => mem_collectRelationTables h
  | .aggregate _ _ _, _, h => by
    obtain rfl := List.mem_singleton.mp h
    exact ⟨List.mem_singleton_self _, List.Subset.refl _⟩
  | .join _ _ _ _, _, h => by
    rcases List.mem_cons.mp h with rfl | h
    · exact ⟨List.mem_cons_self, List.subset_append_left _ _⟩
    · obtain ⟨htable, hcolumns⟩ := mem_collectRelationTables h
      exact ⟨List.mem_cons_of_mem _ htable, List.Subset.trans hcolumns (List.subset_append_right _ _)⟩

theorem mem_collectRelationTables : ∀ {fields : List Field} {relation : Relation},
    relation ∈ relationsOf fields →
      relation.table ∈ collectRelationTables fields ∧
        relationColumns relation ⊆ collectFilterColumns fields
  | [], _, h => absurd h List.not_mem_nil
  | _ :: _, _, h => by
    rcases List.mem_append.mp h with h | h
    · obtain ⟨htable, hcolumns⟩ := mem_fieldTables h
      exact ⟨List.mem_append_left _ htable, List.Subset.trans hcolumns (List.subset_append_left _ _)⟩
    · obtain ⟨htable, hcolumns⟩ := mem_collectRelationTables h
      exact ⟨List.mem_append_right _ htable, List.Subset.trans hcolumns (List.subset_append_right _ _)⟩

end

theorem found_cons {κ α : Type} [DecidableEq κ] {entries : List (κ × α)} {entry : κ × α} {key : κ} :
    found (entry :: entries) key = if entry.1 = key then some entry.2 else found entries key := by
  by_cases h : entry.1 = key <;> simp [found, h]

theorem relationPks_found {pks : List (TableName × ColumnName)} (h : relationPks db index = .ok pks)
    {table : TableName} (htable : table ∈ collectRelationTables index.fields) :
    (found pks table).isSome = true := by
  obtain ⟨table', htable', heq⟩ := Attempts.exists_mem_eraseDups htable
  obtain rfl := beq_iff_eq.mp heq
  obtain ⟨entry, hentry, hfetched⟩ := Attempts.mem_mapM h htable'
  obtain ⟨pk, -, hpk⟩ := Attempts.bind_ok.mp hfetched
  cases hpk
  rw [found, Option.isSome_map, List.find?_isSome]
  exact ⟨_, hentry, by simp⟩

theorem addColumnType_found {types types' : Types} {key : TableName × ColumnName}
    (h : addColumnType db index types key = .ok types') :
    (found types' key).isSome = true ∧
      ∀ k, (found types k).isSome = true → (found types' k).isSome = true := by
  unfold addColumnType at h
  split at h
  · next hthere =>
    cases h
    exact ⟨hthere, fun _ hk => hk⟩
  · obtain ⟨sqlType, -, h⟩ := Attempts.bind_ok.mp h
    cases h
    constructor
    · rw [found_cons, if_pos rfl]
      rfl
    · intro k hk
      rw [found_cons]
      split
      · rfl
      · exact hk

theorem foldlM_addColumnType_found {columns : List (TableName × ColumnName)} {types types' : Types}
    (h : columns.foldlM (addColumnType db index) types = .ok types') :
    (∀ column ∈ columns, (found types' column).isSome = true) ∧
      ∀ k, (found types k).isSome = true → (found types' k).isSome = true := by
  induction columns generalizing types with
  | nil =>
    cases h
    exact ⟨nofun, fun _ hk => hk⟩
  | cons column columns ih =>
    obtain ⟨types₁, hadd, h⟩ := Attempts.bind_ok.mp h
    obtain ⟨hcolumn, hkept⟩ := addColumnType_found hadd
    obtain ⟨hcolumns, hkept'⟩ := ih h
    constructor
    · intro c hc
      rcases List.mem_cons.mp hc with rfl | hc
      · exact hkept' _ hcolumn
      · exact hcolumns c hc
    · exact fun k hk => hkept' k (hkept k hk)

/-- What a schema's queries look up is among what was fetched. -/
structure Fetched (index : IndexSchema) (pks : List (TableName × ColumnName)) (types : Types) :
    Prop where
  relations : ∀ relation ∈ relationsOf index.fields,
    RelationSupplied (found pks) (fun table column => found types (table, column)) relation
  deletion : Typed (fun table column => found types (table, column))
    (pushValueOps index.table (whenFilters index))
  filters : Typed (fun table column => found types (table, column))
    (pushValueOps index.table index.filters)

theorem fetched_of_ok {pks : List (TableName × ColumnName)} {types types' : Types}
    {columns : List ColumnName} (hpks : relationPks db index = .ok pks)
    (htypes : filterColumnTypes db index = .ok types)
    (hkeys : addKeyColumnTypes db index columns types = .ok types') :
    Fetched index pks types' ∧
      ∀ column ∈ columns, (found types' (index.table, column)).isSome = true := by
  obtain ⟨hcollected, -⟩ := foldlM_addColumnType_found htypes
  obtain ⟨hcolumns, hkept⟩ := foldlM_addColumnType_found hkeys
  constructor
  · constructor
    · intro relation hrelation
      obtain ⟨htable, hsubset⟩ := mem_collectRelationTables hrelation
      refine ⟨relationPks_found hpks htable, fun column hcolumn => hkept _ (hcollected column ?_)⟩
      exact List.mem_append_left _ (List.mem_append_left _ (hsubset hcolumn))
    · intro column hcolumn
      apply hkept _ (hcollected column _)
      exact List.mem_append_left _ (List.mem_append_right _ hcolumn)
    · intro column hcolumn
      exact hkept _ (hcollected column (List.mem_append_right _ hcolumn))
  · intro column hcolumn
    exact hcolumns _ (List.mem_map_of_mem hcolumn)

variable {pks : List (TableName × ColumnName)} {types : Types}

theorem softDeletePredicate_supplied (h : Fetched index pks types) :
    Supplied (softDeletePredicate (fun table column => found types (table, column)) index) := by
  have hconditions := h.deletion
  rw [whenFilters] at hconditions
  have hpredicate {column : ColumnName} {conditions : Option (List Filter)}
      (htyped : Typed (fun table column => found types (table, column))
        (pushValueOps index.table conditions)) :
      Supplied (some <$> (do
        let conditions ← filters (fun table column => found types (table, column)) conditions .root
          index.table
        return andAll (.paren (.marked ⟨.root, column⟩)) conditions)) :=
    ((filters_supplied htyped).bind fun _ => .pure).map
  unfold softDeletePredicate
  cases hsoft : index.softDelete with
  | none => exact .pure
  | some softDelete =>
    rw [hsoft] at hconditions
    cases softDelete with
    | column column conditions => exact hpredicate hconditions
    | field field conditions =>
      cases hfield : fieldColumn field index.fields with
      | none => simpa only [hfield] using Supplied.pure
      | some column => simpa only [hfield] using hpredicate hconditions

theorem documentQuery_supplied {key : RowKey GenericValue} (h : Fetched index pks types)
    (hkey : ∀ column ∈ key.map Prod.fst, (found types (index.table, column)).isSome = true)
    {e : BuildError}
    (hfails : documentQuery (found pks) (fun table column => found types (table, column)) index key =
      .error e) : e.isInternal = false := by
  refine Supplied.run ?_ hfails
  apply (pairsOf_supplied h.relations).bind
  intro pairs
  apply Supplied.bind
  · apply Supplied.mapM
    intro entry hentry
    exact (typedPlaceholder_supplied (hkey _ (List.mem_map_of_mem hentry))).bind fun _ => .pure
  · intro keyed
    apply (softDeletePredicate_supplied h).bind
    exact fun deleted => (filters_supplied h.filters).bind fun _ => .pure

theorem documentsQuery_supplied {pkColumn : ColumnName} {keys : List GenericValue}
    (h : Fetched index pks types) (hkey : (found types (index.table, pkColumn)).isSome = true)
    {e : BuildError}
    (hfails : documentsQuery (found pks) (fun table column => found types (table, column)) index
      pkColumn keys = .error e) : e.isInternal = false := by
  refine Supplied.run ?_ hfails
  apply (pairsOf_supplied h.relations).bind
  intro pairs
  apply Supplied.bind
  · exact Supplied.mapM fun value _ => typedPlaceholder_supplied hkey
  · intro operands
    apply (softDeletePredicate_supplied h).bind
    exact fun deleted => (filters_supplied h.filters).bind fun _ => .pure

theorem fetching_build_error {pks : Except QueryError (List (TableName × ColumnName))}
    {first : Except QueryError Types} {second : Types → Except QueryError Types} {α : Type}
    {query : List (TableName × ColumnName) → Types → Except BuildError α} {e : BuildError}
    (h : (do
      let pks ← pks.mapError SourceError.query
      let types ← first.mapError SourceError.query
      let types ← (second types).mapError SourceError.query
      (query pks types).mapError SourceError.build) = .error (.build e)) :
    ∃ p types types', pks = .ok p ∧ first = .ok types ∧ second types = .ok types' ∧
      query p types' = .error e := by
  cases pks with
  | error e' => cases h
  | ok p =>
    cases first with
    | error e' => cases h
    | ok types =>
      change ((second types).mapError SourceError.query >>= fun types =>
        (query p types).mapError SourceError.build) = _ at h
      cases hsecond : second types with
      | error e' =>
        rw [hsecond] at h
        cases h
      | ok types' =>
        rw [hsecond] at h
        change (query p types').mapError SourceError.build = _ at h
        cases hquery : query p types' with
        | error e' =>
          rw [hquery] at h
          cases h
          exact ⟨p, types, types', rfl, rfl, hsecond, hquery⟩
        | ok q =>
          rw [hquery] at h
          cases h

/-- A query that cannot be built is never missing what was to be fetched for it. -/
theorem buildQuery_supplied (db : Database S) (index : IndexSchema) :
    (∀ key table, buildQuery db index key ≠ .error (.build (.missingPrimaryKey table))) ∧
      (∀ key table column, buildQuery db index key ≠ .error (.build (.missingType table column))) ∧
      (∀ pkColumn keys table,
        buildManyQuery db index pkColumn keys ≠ .error (.build (.missingPrimaryKey table))) ∧
      ∀ pkColumn keys table column,
        buildManyQuery db index pkColumn keys ≠ .error (.build (.missingType table column)) := by
  have hone (key : RowKey GenericValue) (e : BuildError)
      (h : buildQuery db index key = .error (.build e)) : e.isInternal = false := by
    obtain ⟨pks, types, types', hpks, htypes, hkeys, hquery⟩ := fetching_build_error h
    obtain ⟨hfetched, hcolumns⟩ := fetched_of_ok hpks htypes hkeys
    exact documentQuery_supplied hfetched hcolumns hquery
  have hmany (pkColumn : ColumnName) (keys : List GenericValue) (e : BuildError)
      (h : buildManyQuery db index pkColumn keys = .error (.build e)) : e.isInternal = false := by
    obtain ⟨pks, types, types', hpks, htypes, hkeys, hquery⟩ := fetching_build_error h
    obtain ⟨hfetched, hcolumns⟩ := fetched_of_ok hpks htypes hkeys
    exact documentsQuery_supplied hfetched (hcolumns pkColumn (List.mem_singleton_self _)) hquery
  refine ⟨?_, ?_, ?_, ?_⟩
  · intro key table h
    cases hone key _ h
  · intro key table column h
    cases hone key _ h
  · intro pkColumn keys table h
    cases hmany pkColumn keys _ h
  · intro pkColumn keys table column h
    cases hmany pkColumn keys _ h

end Fetching

end Flusso.Document
