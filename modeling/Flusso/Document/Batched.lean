import Flusso.Document.Coercion
import Flusso.Document.Evaluation
import Flusso.Document.Prefetch
import Flusso.Foundation.Association
import Flusso.Foundation.Grouping

/-! # Building one document and building many

Many documents take one query per chunk of keys; each row finds its id again
through the key it reads back as. The outcome is that of the query for the single
document, save where the id's row reads back as another key.
-/

namespace Flusso.Document

section Steps

variable {β γ : Type}

/-- Where one step succeeds, the other does too, whatever was built before it. -/
def Alike (m m' : Build β) : Prop := ∀ b b' r, m b = .ok r → ∃ r', m' b' = .ok r'

namespace Alike

variable {m m' : Build β}

theorem pure {x y : β} : Alike (pure x) (pure y) := fun _ b' _ _ => ⟨(y, b'), rfl⟩

theorem throw {e : BuildError} : Alike (throw e) m' := by
  rintro b b' r ⟨⟩

theorem bind {f f' : β → Build γ} (hm : Alike m m') (hf : ∀ x x', Alike (f x) (f' x')) :
    Alike (m >>= f) (m' >>= f') := by
  intro b b' r h
  obtain ⟨x, b₁, hx, h⟩ := build_bind.mp h
  obtain ⟨⟨x', b₁'⟩, hx'⟩ := hm b b' _ hx
  obtain ⟨r', hr'⟩ := hf x x' b₁ b₁' r h
  exact ⟨r', build_bind.mpr ⟨x', b₁', hx', hr'⟩⟩

theorem map {f f' : β → γ} (hm : Alike m m') : Alike (f <$> m) (f' <$> m') := by
  rw [map_eq_pure_bind, map_eq_pure_bind]
  exact hm.bind fun _ _ => pure

theorem mapM {f : β → Build γ} {l : List β} (h : ∀ x ∈ l, Alike (f x) (f x)) :
    Alike (l.mapM f) (l.mapM f) := by
  induction l with
  | nil => exact pure
  | cons x l ih =>
    rw [List.mapM_cons]
    apply (h x List.mem_cons_self).bind
    intro y y'
    apply (ih fun x' hx' => h x' (List.mem_cons_of_mem _ hx')).bind
    exact fun ys ys' => pure

end Alike

variable {pks : TableName → Option ColumnName} {colTypes : TableName → ColumnName → Option String}
  {table : TableName} {column : ColumnName} {a : Alias} {index : IndexSchema}

theorem placeholder_alike {value : GenericValue} :
    Alike (placeholder value) (placeholder value) := by
  intro b b' r h
  unfold placeholder at h ⊢
  split at h
  · next hvalue => exact ⟨_, by rw [if_pos hvalue]; rfl⟩
  · cases h

theorem typedPlaceholder_alike {value : GenericValue} :
    Alike (typedPlaceholder colTypes value table column)
      (typedPlaceholder colTypes value table column) := by
  unfold typedPlaceholder
  split
  · exact placeholder_alike.bind fun _ _ => .pure
  · exact .throw

theorem valueOp_alike {op : FilterOp} {value : FilterValue} :
    Alike (valueOp colTypes column op value a table) (valueOp colTypes column op value a table) := by
  have hparam (v : String) :
      Alike (typedParam colTypes v table column) (typedParam colTypes v table column) :=
    typedPlaceholder_alike
  cases value with
  | single v =>
    rw [valueOp_single]
    split
    · exact (hparam v).bind fun _ _ => .pure
    · exact .throw
  | list vs =>
    have hparams := Alike.mapM fun v (_ : v ∈ vs) => hparam v
    rw [valueOp_list]
    split
    · exact hparams.bind fun _ _ => .pure
    · split
      · exact hparams.bind fun _ _ => .pure
      · exact .throw
  | range lower upper =>
    rw [valueOp_range]
    split
    · exact (hparam lower).bind fun _ _ => (hparam upper).bind fun _ _ => .pure
    · exact .throw

theorem filters_alike {fs : Option (List Filter)} :
    Alike (filters colTypes fs a table) (filters colTypes fs a table) := by
  apply Alike.mapM
  intro f _
  cases f with
  | raw sql => exact .pure
  | nullCheck column op => exact .pure
  | valueOp column op value => exact valueOp_alike

theorem softDeletePredicate_alike :
    Alike (softDeletePredicate colTypes index) (softDeletePredicate colTypes index) := by
  have hpredicate {column : ColumnName} {conditions : Option (List Filter)} :
      let predicate : Build Cond := do
        let conditions ← filters colTypes conditions .root index.table
        return andAll (.paren (.marked ⟨.root, column⟩)) conditions
      Alike (some <$> predicate) (some <$> predicate) :=
    (filters_alike.bind fun _ _ => .pure).map
  unfold softDeletePredicate
  split
  · exact .pure
  · exact hpredicate
  · split
    · exact hpredicate
    · exact .pure

theorem documentsQuery_ok {pkColumn : ColumnName} {keys : List GenericValue} (hne : keys ≠ [])
    (h : ∀ v ∈ keys, ∃ r, documentQuery pks colTypes index [(pkColumn, v)] = .ok r) :
    ∃ r, documentsQuery pks colTypes index pkColumn keys = .ok r := by
  have hsteps : ∀ v ∈ keys, ∃ pairs b₁ p b₂ deleted b₃ conds b₄,
      pairsOf index.dbSchema pks colTypes index.fields .root index.primaryKey ⟨[], 0⟩ =
        .ok (pairs, b₁) ∧
      typedPlaceholder colTypes v index.table pkColumn b₁ = .ok (p, b₂) ∧
      softDeletePredicate colTypes index b₂ = .ok (deleted, b₃) ∧
      filters colTypes index.filters .root index.table b₃ = .ok (conds, b₄) := by
    intro v hv
    obtain ⟨r, hr⟩ := h v hv
    obtain ⟨⟨built, builder⟩, hbuilt, -⟩ := Attempts.bind_ok.mp hr
    obtain ⟨pairs, b₁, hpairs, hbuilt⟩ := build_bind.mp hbuilt
    obtain ⟨keyed, b₂, hkeyed, hbuilt⟩ := build_bind.mp hbuilt
    obtain ⟨deleted, b₃, hdeleted, hbuilt⟩ := build_bind.mp hbuilt
    obtain ⟨conds, b₄, hconds, -⟩ := build_bind.mp hbuilt
    rw [List.mapM_cons] at hkeyed
    obtain ⟨cond, b₁', hfirst, hkeyed⟩ := build_bind.mp hkeyed
    obtain ⟨p, b₂', hp, hfirst⟩ := build_bind.mp hfirst
    obtain ⟨rfl, rfl⟩ := build_pure.mp hfirst
    obtain ⟨rest, b₂', hrest, hkeyed⟩ := build_bind.mp hkeyed
    obtain ⟨rfl, rfl⟩ := build_pure.mp hrest
    obtain ⟨rfl, rfl⟩ := build_pure.mp hkeyed
    exact ⟨pairs, b₁, p, _, deleted, b₃, conds, b₄, hpairs, hp, hdeleted, hconds⟩
  obtain ⟨first, hfirst⟩ := List.exists_mem_of_ne_nil keys hne
  obtain ⟨pairs, b₁, _, b₂, _, b₃, _, _, hpairs, -, hdeleted, hconds⟩ := hsteps first hfirst
  have hparams : ∀ l ⊆ keys, ∀ b,
      ∃ r, l.mapM (fun v => typedPlaceholder colTypes v index.table pkColumn) b = .ok r := by
    intro l hl
    induction l with
    | nil => exact fun b => ⟨_, rfl⟩
    | cons v l ih =>
      intro b
      obtain ⟨_, b', p, _, _, _, _, _, -, hp, -, -⟩ := hsteps v (hl List.mem_cons_self)
      obtain ⟨⟨p', b₁⟩, hp'⟩ := typedPlaceholder_alike b' b _ hp
      obtain ⟨⟨ps, b₂⟩, hps⟩ := ih (fun v' hv' => hl (List.mem_cons_of_mem _ hv')) b₁
      refine ⟨(p' :: ps, b₂), ?_⟩
      rw [List.mapM_cons]
      exact build_bind.mpr ⟨p', b₁, hp', build_bind.mpr ⟨ps, b₂, hps, rfl⟩⟩
  obtain ⟨⟨ps, c₂⟩, hps⟩ := hparams keys (List.Subset.refl _) b₁
  obtain ⟨⟨deleted', c₃⟩, hdeleted'⟩ := softDeletePredicate_alike b₂ c₂ _ hdeleted
  obtain ⟨⟨conds', c₄⟩, hconds'⟩ := filters_alike b₃ c₃ _ hconds
  exact ⟨_, Attempts.bind_ok.mpr ⟨_, build_bind.mpr ⟨pairs, b₁, hpairs,
    build_bind.mpr ⟨ps, c₂, hps, build_bind.mpr ⟨deleted', c₃, hdeleted',
      build_bind.mpr ⟨conds', c₄, hconds', rfl⟩⟩⟩⟩, rfl⟩⟩

end Steps

section Fetching

theorem mapError_ok {ε ε' α : Type} {x : Except ε α} {f : ε → ε'} {a : α} :
    x.mapError f = .ok a ↔ x = .ok a := by
  cases x with
  | error e => constructor <;> rintro ⟨⟩
  | ok b => constructor <;> rintro ⟨⟩ <;> rfl

variable {S : Type} {db : Database S} {index : IndexSchema}

theorem found_eq_some {κ α : Type} [DecidableEq κ] {entries : List (κ × α)} {key : κ} {a : α}
    (h : found entries key = some a) : (key, a) ∈ entries := by
  obtain ⟨entry, hfind, rfl⟩ := Option.map_eq_some_iff.mp h
  have hkey := List.find?_some hfind
  rw [← of_decide_eq_true hkey]
  exact List.mem_of_find?_eq_some hfind

/-- The types so far are those of the catalog. -/
def Catalogued (db : Database S) (index : IndexSchema) (types : Types) : Prop :=
  ∀ key sqlType, (key, sqlType) ∈ types → columnType db index.dbSchema key.1 key.2 = .ok sqlType

theorem Catalogued.addColumnType {types types' : Types} {key : TableName × ColumnName}
    (h : Catalogued db index types) (hadd : addColumnType db index types key = .ok types') :
    Catalogued db index types' := by
  unfold Document.addColumnType at hadd
  split at hadd
  · cases hadd
    exact h
  · obtain ⟨sqlType, htype, hadd⟩ := Attempts.bind_ok.mp hadd
    cases hadd
    intro key' sqlType' hmem
    rcases List.mem_cons.mp hmem with heq | hmem
    · cases heq
      exact htype
    · exact h key' sqlType' hmem

theorem Catalogued.foldlM {columns : List (TableName × ColumnName)} {types types' : Types}
    (h : Catalogued db index types)
    (hadd : columns.foldlM (Document.addColumnType db index) types = .ok types') :
    Catalogued db index types' := by
  induction columns generalizing types with
  | nil =>
    cases hadd
    exact h
  | cons column columns ih =>
    rw [List.foldlM_cons] at hadd
    obtain ⟨types'', hfirst, hadd⟩ := Attempts.bind_ok.mp hadd
    exact ih (h.addColumnType hfirst) hadd

/-- What is fetched for a query is what the catalog says. -/
theorem catalog_of_fetched {pks : List (TableName × ColumnName)} {types types' : Types}
    {columns : List ColumnName} (hpks : relationPks db index = .ok pks)
    (htypes : filterColumnTypes db index = .ok types)
    (hkeys : addKeyColumnTypes db index columns types = .ok types') :
    Catalog db index.dbSchema (found pks) (fun table column => found types' (table, column)) := by
  constructor
  · intro table pk hfound
    obtain ⟨table', -, hfetched⟩ := Attempts.mem_of_mapM hpks (found_eq_some hfound)
    obtain ⟨pk', hpk, heq⟩ := Attempts.bind_ok.mp hfetched
    cases heq
    rw [keyColumn, hpk]
    rfl
  · intro table column sqlType hfound
    have hempty : Catalogued db index [] := by
      rintro key sqlType ⟨⟩
    have htype := (hempty.foldlM htypes).foldlM hkeys _ _ (found_eq_some hfound)
    obtain ⟨t, ht, htype⟩ := Attempts.bind_ok.mp htype
    unfold tableOf at ht
    cases hdb : db index.dbSchema table with
    | none =>
      simp only [hdb] at ht
      cases ht
    | some t' =>
      simp only [hdb] at ht
      cases ht
      cases hsql : t.sqlType column with
      | none =>
        simp only [hsql] at htype
        cases htype
      | some sqlType' =>
        simp only [hsql] at htype
        cases htype
        simp only [typeName, storedType, hdb, Option.bind_some, hsql, Option.getD_some]

end Fetching

section Building

variable {S : Type} [Postgres S] [Sql.Values S] [Decimals] [Times]

/-- Why documents are not built. -/
inductive BuilderError where
  | unknownIndex (index : IndexName)
  | source (error : SourceError)
  /-- PostgreSQL refuses the query. -/
  | refused

/-- A database, its reading of raw filters, and the reading of the JSON it sends. -/
structure Pool (S : Type) where
  db : Database S
  raw : RawTexts S
  json : Json → JsonValue

variable (pool : Pool S) (spec : SourceSpec)

def schemaOf (index : IndexName) : Except BuilderError IndexSchema :=
  match spec.schema index with
  | some schema => .ok schema
  | none => .error (.unknownIndex index)

def fetch (query : DocumentQuery × List GenericValue) :
    Except BuilderError (List (Option S × Json)) :=
  match query.1.run (session pool.db pool.raw query.2) with
  | some rows => .ok rows
  | none => .error .refused

def body (schema : IndexSchema) (document : Json) : GenericValue :=
  coerceDocument (pool.json document) schema.fields

/-- Assemble one document, or report it deleted where its root row is absent. -/
def build (id : DocumentId GenericValue) : Except BuilderError (Document GenericValue) := do
  let schema ← schemaOf spec id.index
  let query ← (buildQuery pool.db schema id.key).mapError .source
  match ← fetch pool query with
  | [] => pure (.delete id)
  | (_, document) :: _ => pure (.upsert id (body pool schema document))

/-- Most keys per query for many documents. -/
def buildChunk : ℕ := 512

/-- The value of a key of one column, with its id. -/
def loneKey (id : DocumentId GenericValue) : Option (GenericValue × DocumentId GenericValue) :=
  match id.key with
  | [(_, value)] => some (value, id)
  | _ => none

/-- A body is an upsert, its absence a tombstone. -/
def outcome (id : DocumentId GenericValue) : Option GenericValue → Document GenericValue
  | some body => .upsert id body
  | none => .delete id

/-- The documents of a chunk: each row is put under the key it reads back as, and each id takes
out what is under its key. -/
def buildKeyed (schema : IndexSchema) (pkColumn : ColumnName)
    (chunk : List (GenericValue × DocumentId GenericValue)) :
    Except BuilderError (List (Document GenericValue)) := do
  let query ← (buildManyQuery pool.db schema pkColumn (chunk.map Prod.fst)).mapError .source
  let rows ← fetch pool query
  let bodies := (rows.map fun row =>
    ((row.1.map Postgres.decodeColumn).getD .null, body pool schema row.2)).foldl
      Association.insert []
  pure (List.zipWith (fun entry => outcome entry.2) chunk
    (Association.takeOut bodies (chunk.map Prod.fst)))

/-- The documents of one index, in chunks where it has a key column and every id one key value. -/
def buildGroup (schema : IndexSchema) (group : List (DocumentId GenericValue)) :
    Except BuilderError (List (Document GenericValue)) :=
  match schema.primaryKey, group.mapM loneKey with
  | some pkColumn, some keyed => do
    let chunks ← (keyed.toChunks buildChunk).mapM (buildKeyed pool schema pkColumn)
    pure chunks.flatten
  | _, _ => group.mapM (build pool spec)

/-- Assemble many documents, index by index in the order a hash map gives the indexes. -/
def buildMany (order : List IndexName) (ids : List (DocumentId GenericValue)) :
    Except BuilderError (List (Document GenericValue)) := do
  let groups ← order.mapM fun index => do
    let schema ← schemaOf spec index
    buildGroup pool spec schema (ids.filter fun id => id.index = index)
  pure groups.flatten

end Building

section Agreement

variable {S : Type} [Postgres S] [Sql.Values S] [Decimals] [Times] {pool : Pool S}
  {spec : SourceSpec} {schema : IndexSchema} {pkColumn : ColumnName} {v : GenericValue} {w : S}

/-- What the database holds of an index whose documents are named by one column: the column is
unique, and a value read from it, bound as a key again, is the same value. -/
structure KeyColumn (db : Database S) (schema : IndexSchema) (pkColumn : ColumnName) : Prop where
  fits : IndexFits db schema
  unique : (rowsOf db schema.dbSchema schema.table).Pairwise fun r r' =>
    ∀ w, areEqual (r pkColumn) w = true → ¬ areEqual (r' pkColumn) w = true
  readsBack : ∀ row ∈ rowsOf db schema.dbSchema schema.table, ∀ v w,
    (Postgres.decodeColumn (row pkColumn) == v) = true →
      Postgres.cast (typeName db schema.dbSchema schema.table pkColumn) v = some w →
        areEqual (row pkColumn) w = true

/-- The row a key value names, where an index makes a document of it. -/
def named (db : Database S) (schema : IndexSchema) (pkColumn : ColumnName) (w : S) :
    Option (Row S) :=
  (rowsOf db schema.dbSchema schema.table).find? fun row =>
    areEqual (row pkColumn) w && indexed db schema row

def contents (pool : Pool S) (schema : IndexSchema) (row : Row S) : GenericValue :=
  body pool schema (documentContents pool.db schema.dbSchema literalJson schema.fields schema.table
    row schema.primaryKey)

omit [Decimals] [Times] in
theorem named_spec {db : Database S} {row : Row S} (h : named db schema pkColumn w = some row) :
    row ∈ rowsOf db schema.dbSchema schema.table ∧ areEqual (row pkColumn) w = true ∧
      indexed db schema row = true := by
  have hrow := List.find?_some h
  rw [Bool.and_eq_true] at hrow
  exact ⟨List.mem_of_find?_eq_some h, hrow⟩

omit [Decimals] [Times] in
theorem KeyColumn.row_unique {db : Database S} (h : KeyColumn db schema pkColumn) {r r' : Row S}
    (hr : r ∈ rowsOf db schema.dbSchema schema.table)
    (hr' : r' ∈ rowsOf db schema.dbSchema schema.table) (hw : areEqual (r pkColumn) w = true)
    (hw' : areEqual (r' pkColumn) w = true) : r = r' := by
  by_contra hne
  have hsymm : Std.Symm fun r r' : Row S =>
      ∀ w, areEqual (r pkColumn) w = true → ¬ areEqual (r' pkColumn) w = true :=
    ⟨fun r r' h w hw' hw => h w hw hw'⟩
  exact h.unique.forall hr hr' hne w hw hw'

variable [Sql.LawfulValues S]

omit [Postgres S] [Sql.Values S] [Decimals] [Times] [Sql.LawfulValues S] in
theorem buildQuery_ok {db : Database S} {key : RowKey GenericValue}
    {query : DocumentQuery × List GenericValue} (h : buildQuery db schema key = .ok query) :
    ∃ pks types types', relationPks db schema = .ok pks ∧ filterColumnTypes db schema = .ok types ∧
      addKeyColumnTypes db schema (key.map Prod.fst) types = .ok types' ∧
      documentQuery (found pks) (fun table column => found types' (table, column)) schema key =
        .ok query := by
  obtain ⟨pks, hpks, h⟩ := Attempts.bind_ok.mp h
  obtain ⟨types, htypes, h⟩ := Attempts.bind_ok.mp h
  obtain ⟨types', hkeys, h⟩ := Attempts.bind_ok.mp h
  exact ⟨pks, types, types', mapError_ok.mp hpks, mapError_ok.mp htypes, mapError_ok.mp hkeys,
    mapError_ok.mp h⟩

/-- The row that a key value names; none where the value does not spell one of the column. -/
def namedBy (db : Database S) (schema : IndexSchema) (pkColumn : ColumnName) (v : GenericValue) :
    Option (Row S) :=
  (Postgres.cast (typeName db schema.dbSchema schema.table pkColumn) v).bind
    (named db schema pkColumn)

omit [Sql.LawfulValues S] in
theorem accepted_of_build {id : DocumentId GenericValue} {document : Document GenericValue}
    (hschema : spec.schema id.index = some schema) (h : build pool spec id = .ok document) :
    keyAccepted pool.db schema (id.key.map Prod.fst) = true ∧
      indexAccepted pool.db schema pool.raw = true := by
  have hschemaOf : schemaOf spec id.index = .ok schema := by rw [schemaOf, hschema]
  obtain ⟨_, hschema', h⟩ := Attempts.bind_ok.mp h
  rw [hschemaOf] at hschema'
  cases hschema'
  obtain ⟨⟨q, params⟩, hquery, h⟩ := Attempts.bind_ok.mp h
  obtain ⟨pks, types, types', hpks, htypes, hkeys, hdocument⟩ :=
    buildQuery_ok (mapError_ok.mp hquery)
  have haccepted : q.accepted (session pool.db pool.raw params) = _ :=
    documentQuery_accepted (catalog_of_fetched hpks htypes hkeys) hdocument
  obtain ⟨rows, hrows, -⟩ := Attempts.bind_ok.mp h
  rw [← Bool.and_eq_true, ← haccepted]
  by_contra hrefused
  rw [fetch, DocumentQuery.run, if_neg hrefused] at hrows
  cases hrows

theorem build_eq {id : DocumentId GenericValue} (hschema : spec.schema id.index = some schema)
    (hfits : IndexFits pool.db schema) (hid : id.key = [(pkColumn, v)])
    (hcast : Postgres.cast (typeName pool.db schema.dbSchema schema.table pkColumn) v = some w)
    (hbuild : ∃ d, build pool spec id = .ok d) :
    build pool spec id =
      .ok (outcome id ((namedBy pool.db schema pkColumn v).map (contents pool schema))) := by
  have hschemaOf : schemaOf spec id.index = .ok schema := by rw [schemaOf, hschema]
  obtain ⟨d, hbuild⟩ := hbuild
  have haccepted := Bool.and_eq_true_iff.mpr (accepted_of_build hschema hbuild)
  obtain ⟨_, hschema', hbuild⟩ := Attempts.bind_ok.mp hbuild
  rw [hschemaOf] at hschema'
  cases hschema'
  obtain ⟨⟨q, params⟩, hquery, -⟩ := Attempts.bind_ok.mp hbuild
  obtain ⟨pks, types, types', hpks, htypes, hkeys, hdocument⟩ :=
    buildQuery_ok (mapError_ok.mp hquery)
  have hoperands : keyOperands pool.db schema id.key = some [(pkColumn, w)] := by
    simp [keyOperands, hid, hcast]
  have hrun : q.run (session pool.db pool.raw params) = _ :=
    documentQuery_run (catalog_of_fetched hpks htypes hkeys) hfits hdocument hoperands
  rw [if_pos haccepted] at hrun
  have hhead : namedBy pool.db schema pkColumn v =
      ((rowsOf pool.db schema.dbSchema schema.table).filter fun row =>
        hasKey [(pkColumn, w)] row && indexed pool.db schema row).head? := by
    rw [List.head?_filter, namedBy, hcast, Option.bind_some, named]
    simp [hasKey]
  simp only [build, hschemaOf, hquery, fetch, hrun, hhead, bind, Except.bind]
  cases (rowsOf pool.db schema.dbSchema schema.table).filter fun row =>
      hasKey [(pkColumn, w)] row && indexed pool.db schema row with
  | nil => rfl
  | cons row rows => rfl

/-- The row a key value finds again among those of its chunk. -/
def foundAgain (db : Database S) (schema : IndexSchema) (pkColumn : ColumnName)
    (v : GenericValue) : Option (Row S) :=
  (namedBy db schema pkColumn v).filter fun row => Postgres.decodeColumn (row pkColumn) == v

omit [Decimals] [Times] [Sql.LawfulValues S] in
/-- Among the rows of a chunk, a key value finds the row it names, if that reads back as the
value. -/
theorem get_bodies {db : Database S} (hkey : KeyColumn db schema pkColumn) {operands : List S}
    {content : Row S → GenericValue} (hw : w ∈ operands)
    (hcast : Postgres.cast (typeName db schema.dbSchema schema.table pkColumn) v = some w) :
    Association.get ((((rowsOf db schema.dbSchema schema.table).filter fun row =>
      operands.any (areEqual (row pkColumn)) && indexed db schema row).map fun row =>
        (Postgres.decodeColumn (row pkColumn), content row)).foldl Association.insert []) v =
      (foundAgain db schema pkColumn v).map content := by
  -- A row that reads back as the value is the one the value names.
  have hmem {row : Row S} (hrow : row ∈ (rowsOf db schema.dbSchema schema.table).filter fun row =>
      operands.any (areEqual (row pkColumn)) && indexed db schema row)
      (hv : (Postgres.decodeColumn (row pkColumn) == v) = true) :
      row ∈ rowsOf db schema.dbSchema schema.table ∧ areEqual (row pkColumn) w = true ∧
        indexed db schema row = true := by
    obtain ⟨hrow, hselected⟩ := List.mem_filter.mp hrow
    exact ⟨hrow, hkey.readsBack row hrow v w hv hcast, (Bool.and_eq_true_iff.mp hselected).2⟩
  have hnamedBy : namedBy db schema pkColumn v = named db schema pkColumn w := by
    rw [namedBy, hcast, Option.bind_some]
  rw [foundAgain, hnamedBy]
  cases hnamed : named db schema pkColumn w with
  | none =>
    rw [Option.filter_none, Option.map_none]
    apply Association.get_foldl_insert_eq_none
    intro entry hentry hv
    obtain ⟨row, hrow, rfl⟩ := List.mem_map.mp hentry
    obtain ⟨hrow, hequal, hindexed⟩ := hmem hrow hv
    have hnone := List.find?_eq_none.mp hnamed row hrow
    rw [hequal, hindexed] at hnone
    exact hnone rfl
  | some row =>
    obtain ⟨hrow, hequal, hindexed⟩ := named_spec hnamed
    by_cases hv : (Postgres.decodeColumn (row pkColumn) == v) = true
    · simp only [Option.filter, if_pos hv, Option.map_some]
      have hselected : row ∈ (rowsOf db schema.dbSchema schema.table).filter fun row =>
          operands.any (areEqual (row pkColumn)) && indexed db schema row := by
        refine List.mem_filter.mpr ⟨hrow, ?_⟩
        rw [hindexed, Bool.and_true]
        exact List.any_eq_true.mpr ⟨w, hw, hequal⟩
      refine Association.get_foldl_insert (List.mem_map_of_mem hselected) hv ?_
      intro entry hentry hv'
      obtain ⟨row', hrow', rfl⟩ := List.mem_map.mp hentry
      obtain ⟨hrow', hequal', -⟩ := hmem hrow' hv'
      rw [hkey.row_unique hrow' hrow hequal' hequal]
    · simp only [Option.filter, if_neg hv, Option.map_none]
      apply Association.get_foldl_insert_eq_none
      intro entry hentry hv'
      obtain ⟨row', hrow', rfl⟩ := List.mem_map.mp hentry
      obtain ⟨hrow', hequal', -⟩ := hmem hrow' hv'
      exact hv (hkey.row_unique hrow' hrow hequal' hequal ▸ hv')

/-- A chunk gives each of its ids the document of the row it finds again. -/
theorem buildKeyed_eq {chunk : List (GenericValue × DocumentId GenericValue)}
    (hkey : KeyColumn pool.db schema pkColumn) (hne : chunk ≠ [])
    (hkeyAccepted : keyAccepted pool.db schema [pkColumn] = true)
    (hindexAccepted : indexAccepted pool.db schema pool.raw = true)
    (hcast : ∀ entry ∈ chunk, (Postgres.cast (S := S)
      (typeName pool.db schema.dbSchema schema.table pkColumn) entry.1).isSome = true)
    (hquery : ∀ entry ∈ chunk, ∃ query,
      buildQuery pool.db schema [(pkColumn, entry.1)] = .ok query)
    (hdistinct : (chunk.map Prod.fst).Pairwise fun v v' => ¬ (v == v') = true) :
    buildKeyed pool schema pkColumn chunk =
      .ok (chunk.map fun entry => outcome entry.2
        ((foundAgain pool.db schema pkColumn entry.1).map (contents pool schema))) := by
  obtain ⟨first, hfirst⟩ := List.exists_mem_of_ne_nil chunk hne
  obtain ⟨_, hfirstQuery⟩ := hquery first hfirst
  obtain ⟨pks, types, types', hpks, htypes, hkeys, -⟩ := buildQuery_ok hfirstQuery
  have hdocuments : ∀ v ∈ chunk.map Prod.fst, ∃ r,
      documentQuery (found pks) (fun table column => found types' (table, column)) schema
        [(pkColumn, v)] = .ok r := by
    intro v hv
    obtain ⟨entry, hentry, rfl⟩ := List.mem_map.mp hv
    obtain ⟨query, hentryQuery⟩ := hquery entry hentry
    obtain ⟨pks', _, types'', hpks', htypes', hkeys', hdocument⟩ := buildQuery_ok hentryQuery
    rw [hpks] at hpks'
    cases hpks'
    rw [htypes] at htypes'
    cases htypes'
    rw [show ([(pkColumn, entry.1)] : RowKey GenericValue).map Prod.fst =
      ([(pkColumn, first.1)] : RowKey GenericValue).map Prod.fst from rfl, hkeys] at hkeys'
    cases hkeys'
    exact ⟨query, hdocument⟩
  obtain ⟨⟨q, params⟩, hmany⟩ := documentsQuery_ok (by simpa using hne) hdocuments
  have hmanyQuery : buildManyQuery pool.db schema pkColumn (chunk.map Prod.fst) = .ok (q, params) := by
    rw [buildManyQuery, hpks, htypes]
    change ((addKeyColumnTypes pool.db schema [pkColumn] types).mapError SourceError.query >>=
      fun types => (documentsQuery (found pks) (fun table column => found types (table, column))
        schema pkColumn (chunk.map Prod.fst)).mapError SourceError.build) = _
    rw [show addKeyColumnTypes pool.db schema [pkColumn] types = .ok types' from hkeys]
    exact mapError_ok.mpr hmany
  obtain ⟨operands, hoperands, hcasts⟩ := Grouping.exists_mapM_option (l := chunk.map Prod.fst)
    (f := Postgres.cast (S := S) (typeName pool.db schema.dbSchema schema.table pkColumn))
    (by simpa using hcast)
  have hrun : q.run (session pool.db pool.raw params) = _ :=
    documentsQuery_run (catalog_of_fetched hpks htypes hkeys) hkey.fits hmany hoperands
  rw [hkeyAccepted, hindexAccepted, if_pos (by simpa using hne)] at hrun
  have hbodies : ∀ v ∈ chunk.map Prod.fst,
      Association.get ((((rowsOf pool.db schema.dbSchema schema.table).filter fun row =>
        operands.any (areEqual (row pkColumn)) && indexed pool.db schema row).map fun row =>
          (Postgres.decodeColumn (row pkColumn), contents pool schema row)).foldl
            Association.insert []) v =
        (foundAgain pool.db schema pkColumn v).map (contents pool schema) := by
    intro v hv
    obtain ⟨w, hw, hvw⟩ := hcasts v hv
    exact get_bodies hkey hw hvw
  simp only [buildKeyed, hmanyQuery, fetch, hrun, bind, Except.bind, Except.mapError, pure,
    Except.pure, List.map_map]
  rw [Association.takeOut_eq hdistinct, List.map_map, List.zipWith_map_right, List.zipWith_self]
  congr 1
  apply List.map_congr_left
  rintro entry hentry
  exact congrArg (outcome entry.2) (hbodies entry.1 (List.mem_map_of_mem hentry))

end Agreement

end Flusso.Document
