import Flusso.Document.Conditions

/-! # The query assembles the document

Where the parent alias denotes a row, what the builder makes of a field is the
field's contents at that row. The induction is on the field tree; it carries that
the parent's alias is older than any the builder still hands out.
-/

namespace Flusso.Document

section Relations

mutual

def fieldRelations : Field → List Relation
  | .group _ _ fields => relationsOf fields
  | .join _ _ source fields => .join source :: relationsOf fields
  | .aggregate _ _ source => [.aggregate source]
  | .column .. | .geo .. | .constant .. => []

/-- Every relation of a field list, at any depth. -/
def relationsOf : List Field → List Relation
  | [] => []
  | field :: fields => fieldRelations field ++ relationsOf fields

end

theorem fieldRelations_subset {field : Field} {fields : List Field} (h : field ∈ fields) :
    fieldRelations field ⊆ relationsOf fields := by
  induction fields with
  | nil => cases h
  | cons g fields ih =>
    rw [relationsOf]
    rcases List.mem_cons.mp h with rfl | h
    · exact List.subset_append_left _ _
    · exact List.Subset.trans (ih h) (List.subset_append_right _ _)

theorem relationsOf_children {field : Field} :
    relationsOf field.children ⊆ fieldRelations field := by
  cases field with
  | group => exact List.Subset.refl _
  | join => exact List.subset_cons_self _ _
  | _ => exact List.nil_subset _

end Relations

section Scopes

variable {b b' : Builder} {a : Alias}

/-- The root's alias, or one already handed out. -/
def Builder.Knows (b : Builder) : Alias → Prop
  | .root => True
  | .rel n => n ≤ b.seq

theorem Builder.Knows.grows (h : b.Knows a) (hgrows : Grows b b') : b'.Knows a := by
  cases a with
  | root => trivial
  | rel n => exact Nat.le_trans h hgrows.seq

theorem Builder.Knows.ne_fresh (h : b.Knows a) : a ≠ b.fresh := by
  rintro rfl
  exact absurd h (Nat.not_succ_le_self _)

theorem Builder.knows_fresh (b : Builder) : b.next.Knows b.fresh := Nat.le_refl _

end Scopes

/-- How the builder writes a constant: every scalar as a string. -/
def literalJson (value : GenericValue) : Json :=
  match scalarLiteral value with
  | some text => .string text
  | none => .null

section Leaves

variable {S : Type} [Postgres S] [Sql.Values S] {db : Database S} {schema : DatabaseSchema}
  {raw : RawTexts S} {params : List GenericValue} {table : TableName}
  {scope : Scope S} {a : Alias} {row : Row S} {s : Sql.Scalar Alias ColumnName} {v : S}

theorem transforms_eval (transforms : List Transform)
    (hs : s.eval (session db raw params) scope = some v) :
    (transforms.foldl transform s).eval (session db raw params) scope =
      some (transformed transforms v) := by
  induction transforms generalizing s v with
  | nil => exact hs
  | cons t transforms ih =>
    apply ih
    cases t <;> simp only [transform, transformValue, Sql.Scalar.eval, hs, Option.map_some]

omit [Sql.Values S] in
theorem transforms_sqlType {transforms : List Transform}
    {typing : Sql.Typing Alias TableRef} :
    (transforms.foldl transform s).sqlType (session db raw params) typing =
      if transforms = [] then s.sqlType (session db raw params) typing else some "text" := by
  induction transforms generalizing s with
  | nil => rfl
  | cons t transforms ih =>
    rw [List.foldl_cons, ih, if_neg (List.cons_ne_nil _ _)]
    split
    · cases t <;> rfl
    · rfl

theorem columnValue_eval {column : Column} (hscope : scope a = some ((schema, table), row)) :
    (columnValue column.column column.transforms column.default a).eval
        (session db raw params) scope =
      some (Sql.Values.toJson (columnContents db schema column table row)) := by
  have hcolumn : (Sql.Scalar.column ⟨a, column.column⟩).eval (session db raw params) scope =
      some (row column.column) := column_eval hscope
  have hvalue := transforms_eval column.transforms hcolumn
  have htype : (Sql.Scalar.column ⟨a, column.column⟩).sqlType (session db raw params)
      scope.typing = storedType db schema table column.column := by
    simp [Sql.Scalar.sqlType, Sql.Col.sqlType, Sql.Scope.typing, hscope, session]
  unfold columnValue columnContents
  dsimp only
  cases hdefault : column.default.bind scalarLiteral with
  | none => simp only [Sql.Expr.eval, hvalue, Option.map_some]
  | some literal =>
    simp only [Sql.Expr.eval, Sql.Scalar.eval, hvalue, transforms_sqlType, htype, typeName,
      apply_ite (Option.getD · ""), Option.getD_some, Option.bind_eq_bind, Option.bind_some,
      Option.pure_def, Option.map_some]

theorem geoValue_eval {geo : Geo} {t : TableRef} (hscope : scope a = some (t, row)) :
    (geoValue geo a).eval (session db raw params) scope = some (geoContents geo row) := by
  have hlat : (⟨a, geo.lat⟩ : Col).eval scope = some (row geo.lat) := column_eval hscope
  have hlon : (⟨a, geo.lon⟩ : Col).eval scope = some (row geo.lon) := column_eval hscope
  simp only [geoValue, geoContents, Sql.Expr.eval, Sql.evalPairs, Sql.Scalar.eval, hlat, hlon,
    Option.bind_eq_bind, Option.bind_some, Option.pure_def, Option.map_some]
  split <;> rfl

omit [Postgres S] in
theorem literalOrNull_eval {value : GenericValue} {session : Session S} :
    (literalOrNull value).eval session scope = some (literalJson value) := by
  unfold literalOrNull literalJson
  cases scalarLiteral value <;> rfl

omit [Postgres S] in
theorem objectOf_eval {pairs : List (String × Expr)} {fields : List (String × Json)}
    {session : Session S} (h : Sql.evalPairs session pairs scope = some fields) :
    (objectOf pairs).eval session scope = some (.object (Json.ofPairs fields)) := by
  unfold objectOf
  split
  · exact Sql.object_eval h
  · exact Sql.merged_eval h

end Leaves

section Related

variable {S : Type} [Postgres S] [Sql.Values S] {db : Database S} {schema : DatabaseSchema}
  {pks : TableName → Option ColumnName} {colTypes : TableName → ColumnName → Option String}
  {raw : RawTexts S} {params : List GenericValue} {scope : Scope S}
  {b b' : Builder} {a parent : Alias} {row : Row S} {t t' t'' : TableRef}

/-- The tables and filters of a relation, as the database has them. -/
structure RelationFits (db : Database S) (schema : DatabaseSchema) (relation : Relation) :
    Prop where
  table : (db schema relation.table).isSome = true
  filters : ∀ f ∈ relation.filters.getD [], Spelled db schema relation.table f
  junction : ∀ through, relation.key = .through through → (db schema through.table).isSome = true
  junctionFilters : ∀ through, relation.key = .through through →
    ∀ f ∈ through.filters.getD [], Spelled db schema through.table f

/-- A relation that fits, and whose filters can be evaluated. -/
structure RelationReads (db : Database S) (schema : DatabaseSchema) (relation : Relation) :
    Prop where
  fits : RelationFits db schema relation
  filters : ∀ f ∈ relation.filters.getD [], Readable db schema relation.table f
  junctionFilters : ∀ through, relation.key = .through through →
    ∀ f ∈ through.filters.getD [], Readable db schema through.table f

variable (raw params) in
omit [Sql.Values S] in
theorem rows_session {table : TableName} (h : (db schema table).isSome = true) :
    (session db raw params).rows (schema, table) = some (rowsOf db schema table) := by
  obtain ⟨found, hfound⟩ := Option.isSome_iff_exists.mp h
  simp only [session, rowsOf, hfound, Option.map_some, Option.getD_some]

omit [Postgres S] in
theorem rowsLe_orderClause {orderBy : Option (List OrderBy)} {r r' : Row S} :
    Sql.rowsLe (orderClause orderBy a) r r' = rowLe (orderBy.getD []) r r' := by
  unfold orderClause
  generalize orderBy.getD [] = orders
  induction orders with
  | nil => rfl
  | cons o orders ih =>
    rw [List.map_cons, rowLe, ← ih]
    rfl

theorem row_of_mem_orderClause {orderBy : Option (List OrderBy)}
    {o : Sql.Order Alias ColumnName} (h : o ∈ orderClause orderBy a) : o.column.row = a := by
  obtain ⟨o', -, rfl⟩ := List.mem_map.mp h
  rfl

theorem andAll_append {base : Cond} {conds conds' : List Cond} :
    andAll base (conds ++ conds') = andAll (andAll base conds) conds' := List.foldl_append

theorem equal_decides {column column' : ColumnName} {r : Row S} (hself : scope a = some (t', r))
    (hother : scope parent = some (t, row)) :
    Sql.Decides (session db raw params) scope (equal a column parent column')
      (areEqual (r column) (row column'))
      (Sql.Values.compare .eq (r column) (row column') = some false) :=
  Sql.decides_compare (column_eval hself) (column_eval hother)

variable (hcatalog : Catalog db schema pks colTypes)

include hcatalog

theorem named_accepts {table : TableName} {fs : Option (List Filter)} {conds : List Cond}
    {column column' : ColumnName} {r : Row S} (hself : scope a = some (t', r))
    (hparent : scope parent = some (t, row))
    (hconds : filters colTypes fs a table b = .ok (conds, b'))
    (hread : ∀ f ∈ fs.getD [], Readable db schema table f) (hparams : b'.params <+: params) :
    Sql.Accepts (session db raw params) scope (andAll (equal a column parent column') conds)
      (areEqual (r column) (row column') && passesAll db schema table fs r) :=
  (filters_decides hcatalog hself hconds hread hparams (equal_decides hself hparent)).accepts

theorem linked_accepts {through : Through} {far : TableName} {fs : Option (List Filter)}
    {conds junctionConds : List Cond} {junction : Alias} {parentPk : ColumnName} {r j : Row S}
    {b₁ b₁' : Builder} (hfar : scope a = some (t', r)) (hjunction : scope junction = some (t'', j))
    (hparent : scope parent = some (t, row))
    (hconds : filters colTypes fs a far b = .ok (conds, b'))
    (hjunctionConds : filters colTypes through.filters junction through.table b₁ =
      .ok (junctionConds, b₁'))
    (hread : ∀ f ∈ fs.getD [], Readable db schema far f)
    (hjunctionRead : ∀ f ∈ through.filters.getD [], Readable db schema through.table f)
    (hparams : b'.params <+: params) (hparams' : b₁'.params <+: params) :
    Sql.Accepts (session db raw params) scope
      (andAll (equal junction through.leftKey parent parentPk) (conds ++ junctionConds))
      (areEqual (j through.leftKey) (row parentPk) && (passesAll db schema far fs r &&
        passesAll db schema through.table through.filters j)) := by
  rw [andAll_append, ← Bool.and_assoc]
  have hequal : Sql.Decides (session db raw params) scope
      (equal junction through.leftKey parent parentPk) _ _ := equal_decides hjunction hparent
  have hbase := filters_decides hcatalog hfar hconds hread hparams hequal
  exact (filters_decides hcatalog hjunction hjunctionConds hjunctionRead hparams' hbase).accepts

end Related

section Joins

variable {S : Type} [Postgres S] [Sql.Values S] {db : Database S} {schema : DatabaseSchema}
  {pks : TableName → Option ColumnName} {colTypes : TableName → ColumnName → Option String}
  {raw : RawTexts S} {params : List GenericValue} {scope : Scope S}
  {b b' : Builder} {parent : Alias} {row : Row S} {t : TableRef} {pk : Option ColumnName}
  {e : Expr} {fields : List Field}

variable (db schema pks colTypes raw params fields) in
/-- The pairs built for a field list come out as the contents of the row their alias denotes. -/
def PairsEvaluate : Prop :=
  ∀ (a : Alias) (pk : Option ColumnName) (b b' : Builder) (pairs : List (String × Expr))
    (scope : Scope S) (table : TableName) (row : Row S),
    pairsOf schema pks colTypes fields a pk b = .ok (pairs, b') → b'.params <+: params →
      b.Knows a → scope a = some ((schema, table), row) →
      Sql.evalPairs (session db raw params) pairs scope =
        some (pairContents db schema literalJson fields table row pk)

/-- The document a join embeds for a related row. -/
def embedded (db : Database S) (schema : DatabaseSchema) (fields : List Field) (table : TableName)
    (row : Row S) : Json :=
  .object (Json.ofPairs
    (pairContents db schema literalJson fields table row (keyColumn db schema table)))

theorem PairsEvaluate.object (h : PairsEvaluate db schema pks colTypes raw params fields)
    {a : Alias} {key : ColumnName} {pairs : List (String × Expr)} {table : TableName}
    (hpairs : pairsOf schema pks colTypes fields a (some key) b = .ok (pairs, b'))
    (hkey : keyColumn db schema table = some key) (hparams : b'.params <+: params)
    (hknows : b.Knows a) (hscope : scope a = some ((schema, table), row)) :
    (objectOf pairs).eval (session db raw params) scope =
      some (embedded db schema fields table row) := by
  rw [embedded, hkey]
  exact objectOf_eval (h a _ b b' pairs scope table row hpairs hparams hknows hscope)

section Pairs

variable {β γ : Type}

theorem map_fst_filter_product {rows : List β} {others : List γ} {p q : β × γ → Bool} :
    (((rows.product others).filter p).filter q).map Prod.fst = rows.flatMap fun r =>
      (others.filter fun o => p (r, o) && q (r, o)).map fun _ => r := by
  rw [List.filter_filter, List.product, List.filter_flatMap, List.map_flatMap]
  congr 1
  funext r
  rw [List.filter_map, List.map_map]
  simp only [Function.comp_def, Bool.and_comm]

end Pairs

variable (hcatalog : Catalog db schema pks colTypes) {name : FieldName} {options : Options}
  {join : Join} {table : TableName}

include hcatalog

theorem toOne_eval {a : Alias} (column column' : ColumnName) (orderBy : Option (List OrderBy))
    {key : ColumnName} {child : TableName} {fs : Option (List Filter)} {conds : List Cond}
    {pairs : List (String × Expr)} {b₁ b₁' : Builder} (hchild : (db schema child).isSome = true)
    (hread : ∀ f ∈ fs.getD [], Readable db schema child f)
    (hfields : PairsEvaluate db schema pks colTypes raw params fields)
    (hpairs : pairsOf schema pks colTypes fields a (some key) b = .ok (pairs, b'))
    (hkey : keyColumn db schema child = some key) (hknows : b.Knows a)
    (hparams : b'.params <+: params)
    (hconds : filters colTypes fs a child b₁ = .ok (conds, b₁'))
    (hparams' : b₁'.params <+: params) (hparent : parent ≠ a)
    (hscope : scope parent = some (t, row)) :
    (Sql.Expr.first (objectOf pairs) (.table (schema, child) a)
      (andAll (equal a column parent column') conds) (orderClause orderBy a)).eval
        (session db raw params) scope =
      some ((ordered orderBy (linkedDirectly db schema child column fs (row column'))).head?.elim
        .null (embedded db schema fields child)) := by
  have hself (r : Row S) : scope.bind a ((schema, child), r) a = some ((schema, child), r) :=
    Sql.bind_self
  have hother (r : Row S) : scope.bind a ((schema, child), r) parent = some (t, row) :=
    (Sql.bind_of_ne hparent).trans hscope
  have hcond : ∀ r ∈ rowsOf db schema child, Sql.Accepts (session db raw params)
      (scope.bind a ((schema, child), r)) (andAll (equal a column parent column') conds)
      (areEqual (r column) (row column') && passesAll db schema child fs r) :=
    fun r _ => named_accepts hcatalog (hself r) (hother r) hconds hread hparams'
  have horder : ∀ r ∈ rowsOf db schema child, ∀ o ∈ orderClause orderBy a,
      o.column.eval (scope.bind a ((schema, child), r)) = some (r o.column.column) := by
    intro r _ o ho
    simp [Sql.Col.eval, row_of_mem_orderClause ho]
  have heval := Sql.first_eval (Sql.table_eval (rows_session raw params hchild)) hcond horder
    fun r _ => hfields.object hpairs hkey hparams hknows (hself r)
  simp only [rowsLe_orderClause] at heval
  exact heval

variable [Sql.LawfulValues S]

omit hcatalog in
theorem toMany_eval {β : Type} {items : List β} {inScope : β → Scope S} {holds : β → Bool}
    {related : β → Row S} {source : Sql.From Alias ColumnName TableRef} {cond : Cond}
    {inner derived : Alias} {child : TableName} {orderBy : Option (List OrderBy)}
    {limit : Option ℕ} {document : Row S → Json}
    (hsource : source.eval (session db raw params) scope = some (items.map inScope))
    (hcond : ∀ i ∈ items, Sql.Accepts (session db raw params) (inScope i) cond (holds i))
    (hinner : ∀ i ∈ items, inScope i inner = some ((schema, child), related i))
    (he : ∀ r : Row S, e.eval (session db raw params)
      (scope.bind derived ((schema, child), r)) = some (document r)) :
    (Sql.Expr.array e ⟨inner, source, cond, orderClause orderBy inner, limit⟩ derived
      (orderClause orderBy derived)).eval (session db raw params) scope =
      some (.array ((Sql.limited limit (ordered orderBy
        ((items.filter holds).map related))).map document)) := by
  have horder : ∀ i ∈ items, ∀ o ∈ orderClause orderBy inner,
      o.column.eval (inScope i) = some (related i o.column.column) := by
    intro i hi o ho
    simp [Sql.Col.eval, row_of_mem_orderClause ho, hinner i hi]
  have hrows := Sql.rows_eval (s := ⟨inner, source, cond, orderClause orderBy inner, limit⟩)
    hsource hcond horder hinner
  have hsorted : (Sql.limited limit ((items.filter holds).mergeSort fun i j =>
      Sql.rowsLe (orderClause orderBy inner) (related i) (related j))).Pairwise fun i j =>
        Sql.rowsLe (orderClause orderBy inner) (related i) (related j) = true :=
    Sql.pairwise_limited_mergeSort limit _
  simp only [rowsLe_orderClause] at hrows hsorted
  let bounds := (Sql.limited limit ((items.filter holds).mergeSort fun i j =>
    rowLe (orderBy.getD []) (related i) (related j))).map fun i => ((schema, child), related i)
  have hkeys : ∀ o ∈ orderClause orderBy derived, o.column.row = derived :=
    fun o ho => row_of_mem_orderClause ho
  have hordered : bounds.Pairwise fun bound bound' =>
      Sql.rowsLe (orderClause orderBy derived) bound.2 bound'.2 = true := by
    rw [List.pairwise_map]
    simpa only [rowsLe_orderClause] using hsorted
  have hdocument : ∀ bound ∈ bounds, e.eval (session db raw params)
      (scope.bind derived bound) = some (document bound.2) := by
    intro bound hbound
    obtain ⟨i, -, rfl⟩ := List.mem_map.mp hbound
    exact he (related i)
  rw [Sql.array_eval hrows hkeys hordered hdocument, List.map_map]
  have hmap : ((items.filter holds).mergeSort fun i j =>
      rowLe (orderBy.getD []) (related i) (related j)).map related =
        ordered orderBy ((items.filter holds).map related) :=
    List.map_mergeSort fun _ _ _ _ => rfl
  rw [← hmap, Sql.limited_map, List.map_map]
  rfl

omit [Sql.LawfulValues S] in
/-- What the join with a junction yields, and which of it links a far row to the parent. -/
theorem linked_eval {through : Through} {far : TableName} {fs : Option (List Filter)}
    {conds junctionConds : List Cond} {a junction : Alias} {farPk parentPk : ColumnName}
    {b₁ b₁' : Builder} (hpresent : (db schema far).isSome = true)
    (hthrough : (db schema through.table).isSome = true)
    (hread : ∀ f ∈ fs.getD [], Readable db schema far f)
    (hjunctionRead : ∀ f ∈ through.filters.getD [], Readable db schema through.table f)
    (hconds : filters colTypes fs a far b = .ok (conds, b')) (hparams : b'.params <+: params)
    (hjunctionConds : filters colTypes through.filters junction through.table b₁ =
      .ok (junctionConds, b₁')) (hparams' : b₁'.params <+: params) (hne : a ≠ junction)
    (hparent : parent ≠ a) (hparent' : parent ≠ junction)
    (hscope : scope parent = some (t, row)) :
    ∃ (items : List (Row S × Row S)) (inScope : Row S × Row S → Scope S)
      (holds : Row S × Row S → Bool),
      (Sql.From.joined (schema, far) a (schema, through.table) junction
        ⟨junction, through.rightKey⟩ ⟨a, farPk⟩).eval (session db raw params) scope =
          some (items.map inScope) ∧
      (∀ i ∈ items, Sql.Accepts (session db raw params) (inScope i)
        (andAll (equal junction through.leftKey parent parentPk) (conds ++ junctionConds))
        (holds i)) ∧
      (∀ i ∈ items, inScope i a = some ((schema, far), i.1)) ∧
      (items.filter holds).map Prod.fst =
        linkedThrough db schema through far fs farPk parentPk row := by
  let inScope (i : Row S × Row S) : Scope S :=
    (scope.bind a ((schema, far), i.1)).bind junction ((schema, through.table), i.2)
  have hself (i : Row S × Row S) : inScope i junction = some ((schema, through.table), i.2) :=
    Sql.bind_self
  have hfar (i : Row S × Row S) : inScope i a = some ((schema, far), i.1) :=
    (Sql.bind_of_ne hne).trans Sql.bind_self
  have hother (i : Row S × Row S) : inScope i parent = some (t, row) :=
    (Sql.bind_of_ne hparent').trans ((Sql.bind_of_ne hparent).trans hscope)
  have hleft : ∀ i, (⟨junction, through.rightKey⟩ : Col).eval (inScope i) =
      some (i.2 through.rightKey) := fun i => column_eval (hself i)
  have hright : ∀ i, (⟨a, farPk⟩ : Col).eval (inScope i) = some (i.1 farPk) :=
    fun i => column_eval (hfar i)
  have hsource := Sql.joined_eval (rows_session raw params hpresent)
    (rows_session raw params hthrough) hleft hright
  refine ⟨_, inScope, fun i => areEqual (i.2 through.leftKey) (row parentPk) &&
    (passesAll db schema far fs i.1 && passesAll db schema through.table through.filters i.2),
    hsource, fun i _ => ?_, fun i _ => hfar i, ?_⟩
  · exact linked_accepts hcatalog (hfar i) (hself i) (hother i) hconds hjunctionConds hread
      hjunctionRead hparams hparams'
  · exact map_fst_filter_product

omit [Sql.LawfulValues S] hcatalog in
theorem joinContents_eq :
    fieldContents db schema literalJson (.join name options join fields) table row pk =
      if join.kind.isToMany then
        .array ((joinRows db schema join row pk).map (embedded db schema fields join.table))
      else (joinRows db schema join row pk).head?.elim .null
        (embedded db schema fields join.table) := by
  rw [fieldContents]
  rfl

theorem joinValue_eval (hfits : RelationReads db schema (.join join))
    (hfields : PairsEvaluate db schema pks colTypes raw params fields)
    (h : fieldValue schema pks colTypes (.join name options join fields) parent pk b =
      .ok (e, b')) (hparams : b'.params <+: params) (hknows : b.Knows parent)
    (hscope : scope parent = some (t, row)) :
    e.eval (session db raw params) scope = some
      (fieldContents db schema literalJson (.join name options join fields) table row pk) := by
  have hparent := hknows.ne_fresh
  rw [joinContents_eq]
  cases hkind : join.kind with
  | belongsTo column =>
    obtain ⟨targetPk, pairs, conds, b₁, htarget, hpairs, hconds, rfl⟩ := belongsTo_spec hkind h
    have hkey := hcatalog.pks _ _ htarget
    have hordered : ordered none (linkedDirectly db schema join.table targetPk join.filters
        (row column)) = linkedDirectly db schema join.table targetPk join.filters (row column) :=
      List.mergeSort_of_pairwise (List.pairwise_of_forall fun _ _ => rfl)
    refine (toOne_eval hcatalog targetPk column none hfits.fits.table hfits.filters hfields hpairs hkey
      b.knows_fresh ((filters_grows hconds).params.trans hparams) hconds hparams hparent
      hscope).trans ?_
    simp only [Relation.table, Relation.filters, hordered, joinRows, hkind, hkey]
    rfl
  | hasOne foreignKey =>
    obtain ⟨parentPk, childPk, pairs, conds, b₁, rfl, hchild, hpairs, hconds, rfl⟩ :=
      hasOne_spec hkind h
    refine (toOne_eval hcatalog foreignKey parentPk join.orderBy hfits.fits.table hfits.filters hfields
      hpairs (hcatalog.pks _ _ hchild) b.knows_fresh ((filters_grows hconds).params.trans hparams)
      hconds hparams hparent hscope).trans ?_
    simp only [joinRows, hkind]
    rfl
  | hasMany foreignKey =>
    obtain ⟨parentPk, childPk, pairs, conds, b₁, rfl, hchild, hpairs, hconds, rfl⟩ :=
      hasMany_spec hkind h
    have hgrows := pairsOf_grows hpairs
    have hinner : parent ≠ b₁.fresh := ((hknows.grows b.grows_next).grows hgrows).ne_fresh
    have hobject (r : Row S) : (objectOf pairs).eval (session db raw params)
        (scope.bind b.fresh ((schema, join.table), r)) =
          some (embedded db schema fields join.table r) :=
      hfields.object hpairs (hcatalog.pks _ _ hchild)
        ((b₁.grows_next.trans (filters_grows hconds)).params.trans hparams) b.knows_fresh
        Sql.bind_self
    have hself (r : Row S) : scope.bind b₁.fresh ((schema, join.table), r) b₁.fresh =
        some ((schema, join.table), r) := Sql.bind_self
    have hother (r : Row S) : scope.bind b₁.fresh ((schema, join.table), r) parent =
        some (t, row) := (Sql.bind_of_ne hinner).trans hscope
    have hcond : ∀ r ∈ rowsOf db schema join.table, Sql.Accepts (session db raw params)
        (scope.bind b₁.fresh ((schema, join.table), r))
        (andAll (equal b₁.fresh foreignKey parent parentPk) conds)
        (areEqual (r foreignKey) (row parentPk) &&
          passesAll db schema join.table join.filters r) := fun r _ =>
      named_accepts hcatalog (hself r) (hother r) hconds hfits.filters hparams
    refine (toMany_eval (Sql.table_eval (rows_session raw params hfits.fits.table)) hcond
      (fun r _ => hself r) hobject).trans ?_
    simp only [joinRows, hkind, List.map_id']
    rfl
  | manyToMany through =>
    obtain ⟨parentPk, farPk, pairs, conds, junctionConds, b₁, b₂, rfl, hfar, hpairs, hconds,
      hjunction, rfl⟩ := manyToMany_spec hkind h
    have hkey : (Relation.join join).key = .through through := by rw [Relation.key, hkind]
    have hgrows := pairsOf_grows hpairs
    have hnext : (b₁.next).Knows parent :=
      ((hknows.grows b.grows_next).grows hgrows).grows b₁.grows_next
    have hinner : parent ≠ b₁.fresh := ((hknows.grows b.grows_next).grows hgrows).ne_fresh
    have hpairsParams := (b₁.grows_next.trans (b₁.next.grows_next.trans
      ((filters_grows hconds).trans (filters_grows hjunction)))).params.trans hparams
    have hobject (r : Row S) : (objectOf pairs).eval (session db raw params)
        (scope.bind b.fresh ((schema, join.table), r)) =
          some (embedded db schema fields join.table r) :=
      hfields.object hpairs (hcatalog.pks _ _ hfar) hpairsParams b.knows_fresh Sql.bind_self
    obtain ⟨items, inScope, holds, hsource, hcond, hrow, hlinked⟩ := linked_eval hcatalog
      hfits.fits.table (hfits.fits.junction through hkey) hfits.filters
      (hfits.junctionFilters through hkey) hconds ((filters_grows hjunction).params.trans hparams)
      hjunction hparams (b₁.knows_fresh).ne_fresh hinner hnext.ne_fresh hscope
    refine (toMany_eval hsource hcond hrow hobject).trans ?_
    rw [hlinked]
    simp only [joinRows, hkind, hcatalog.pks _ _ hfar]
    rfl

end Joins

section Aggregates

variable {S : Type} [Postgres S] [Sql.Values S] {db : Database S} {schema : DatabaseSchema}
  {pks : TableName → Option ColumnName} {colTypes : TableName → ColumnName → Option String}
  {raw : RawTexts S} {params : List GenericValue} {scope : Scope S}
  {b b' : Builder} {parent : Alias} {row : Row S} {t : TableRef} {pk : Option ColumnName}
  {e : Expr} {aggregate : Aggregate}

section Folds

variable {β : Type} {items : List β} {inScope : β → Scope S} {related : β → Row S} {a : Alias}

omit [Postgres S] [Sql.Values S] in
theorem column_mapM (hrow : ∀ i ∈ items, inScope i a = some (t, related i))
    (column : ColumnName) : (items.map inScope).mapM ((⟨a, column⟩ : Col).eval ·) =
      some ((items.map related).map (· column)) := by
  rw [List.mapM_map, List.map_map]
  exact Sql.mapM_eq_some fun i hi => column_eval (hrow i hi)

omit [Postgres S] in
theorem aggFunction_eval {op : AggregateOp} (hrow : ∀ i ∈ items, inScope i a = some (t, related i))
    (hop : ∀ elementType, op ≠ .ids elementType) :
    (aggFunction op a).eval (items.map inScope) =
      some (foldContents op pk (items.map related)) := by
  cases op with
  | ids elementType => exact absurd rfl (hop elementType)
  | count => simp only [aggFunction, Sql.Fold.eval, foldContents, List.length_map]
  | _ column =>
    simp only [aggFunction, Sql.Fold.eval, foldContents, column_mapM hrow column,
      Option.map_some]

omit [Postgres S] in
theorem idsAgg_eval {elementType : FlussoType} {key : ColumnName}
    (hrow : ∀ i ∈ items, inScope i a = some (t, related i)) :
    (idsAgg a key).eval (items.map inScope) =
      some (foldContents (.ids elementType) (some key) (items.map related)) := by
  simp only [idsAgg, Sql.Fold.eval, foldContents, column_mapM hrow key, Option.map_some,
    List.map_map]
  rfl

end Folds

variable (hcatalog : Catalog db schema pks colTypes)

include hcatalog

theorem directAggregate_eval {foreignKey : ColumnName} (hkey : aggregate.key = .direct foreignKey)
    (hfits : RelationReads db schema (.aggregate aggregate))
    (h : aggregateValue schema pks colTypes aggregate parent pk b = .ok (e, b'))
    (hparams : b'.params <+: params) (hknows : b.Knows parent)
    (hscope : scope parent = some (t, row)) :
    e.eval (session db raw params) scope = some (aggregateContents db schema aggregate row pk) := by
  obtain ⟨parentPk, fold, conds, rfl, hids, hother, hconds, rfl⟩ := directAggregate_spec hkey h
  have hself (r : Row S) : scope.bind b.fresh ((schema, aggregate.table), r) b.fresh =
      some ((schema, aggregate.table), r) := Sql.bind_self
  have hparent (r : Row S) : scope.bind b.fresh ((schema, aggregate.table), r) parent =
      some (t, row) := (Sql.bind_of_ne hknows.ne_fresh).trans hscope
  have hcond : ∀ r ∈ rowsOf db schema aggregate.table, Sql.Accepts (session db raw params)
      (scope.bind b.fresh ((schema, aggregate.table), r))
      (andAll (equal b.fresh foreignKey parent parentPk) conds)
      (areEqual (r foreignKey) (row parentPk) &&
        passesAll db schema aggregate.table aggregate.filters r) := fun r _ =>
    named_accepts hcatalog (hself r) (hparent r) hconds hfits.filters hparams
  refine (Sql.fold_eval (Sql.table_eval (rows_session raw params hfits.fits.table)) hcond).trans ?_
  have hrows : aggregateRows db schema aggregate row (some parentPk) =
      linkedDirectly db schema aggregate.table foreignKey aggregate.filters (row parentPk) := by
    simp only [aggregateRows, hkey]
  have hmap : ((rowsOf db schema aggregate.table).filter fun r =>
      areEqual (r foreignKey) (row parentPk) &&
        passesAll db schema aggregate.table aggregate.filters r).map (fun r : Row S => r) =
      aggregateRows db schema aggregate row (some parentPk) := by
    rw [hrows, List.map_id']
    rfl
  unfold aggregateContents
  rw [← hmap]
  by_cases hop : ∃ elementType, aggregate.op = .ids elementType
  · obtain ⟨elementType, hop⟩ := hop
    obtain ⟨tablePk, htable, rfl⟩ := hids elementType hop
    rw [hop, hcatalog.pks _ _ htable]
    exact idsAgg_eval fun r _ => hself r
  · have hop' : ∀ elementType, aggregate.op ≠ .ids elementType := fun elementType h =>
      hop ⟨elementType, h⟩
    rw [hother hop']
    exact aggFunction_eval (fun r _ => hself r) hop'

theorem throughAggregate_eval {through : Through} (hkey : aggregate.key = .through through)
    (hfits : RelationReads db schema (.aggregate aggregate))
    (h : aggregateValue schema pks colTypes aggregate parent pk b = .ok (e, b'))
    (hparams : b'.params <+: params) (hknows : b.Knows parent)
    (hscope : scope parent = some (t, row)) :
    e.eval (session db raw params) scope = some (aggregateContents db schema aggregate row pk) := by
  obtain ⟨parentPk, farPk, fold, junctionConds, conds, b₁, rfl, hfar, hfold, hjunction, hconds,
    rfl⟩ := throughAggregate_spec hkey h
  have hrelation : (Relation.aggregate aggregate).key = .through through := by
    rw [Relation.key, hkey]
  have hfarPk := hcatalog.pks _ _ hfar
  have hjunctionParams := (filters_grows hconds).params.trans hparams
  have hne : parent ≠ b.fresh := hknows.ne_fresh
  have hne' : parent ≠ b.next.fresh := (hknows.grows b.grows_next).ne_fresh
  have hcontents {β : Type} {items : List β} {inScope : β → Scope S} {related : β → Row S}
      (hrow : ∀ i ∈ items, inScope i b.fresh = some ((schema, aggregate.table), related i)) :
      fold.eval (items.map inScope) =
        some (foldContents aggregate.op (keyColumn db schema aggregate.table)
          (items.map related)) := by
    rw [hfarPk, hfold]
    cases hop : aggregate.op with
    | ids elementType => exact idsAgg_eval hrow
    | _ => exact aggFunction_eval hrow fun _ h => by cases h
  unfold aggregateContents aggregateRows
  simp only [hkey, hfarPk]
  split
  · next hdistinct =>
    have hself (r : Row S) : scope.bind b.fresh ((schema, aggregate.table), r) b.fresh =
        some ((schema, aggregate.table), r) := Sql.bind_self
    have hparent (r : Row S) : scope.bind b.fresh ((schema, aggregate.table), r) parent =
        some (t, row) := (Sql.bind_of_ne hne).trans hscope
    have hjunctionSelf (r j : Row S) : (scope.bind b.fresh ((schema, aggregate.table), r)).bind
        b.next.fresh ((schema, through.table), j) b.next.fresh =
          some ((schema, through.table), j) := Sql.bind_self
    have hjunctionParent (r j : Row S) : (scope.bind b.fresh ((schema, aggregate.table), r)).bind
        b.next.fresh ((schema, through.table), j) parent = some (t, row) :=
      (Sql.bind_of_ne hne').trans (hparent r)
    have hcond : ∀ r ∈ rowsOf db schema aggregate.table, Sql.Accepts (session db raw params)
        (scope.bind b.fresh ((schema, aggregate.table), r))
        (andAll (.inSelect ⟨b.fresh, farPk⟩ ⟨b.next.fresh, through.rightKey⟩
          (schema, through.table) b.next.fresh
          (andAll (equal b.next.fresh through.leftKey parent parentPk) junctionConds)) conds)
        (((rowsOf db schema through.table).any fun j =>
          areEqual (r farPk) (j through.rightKey) && (areEqual (j through.leftKey) (row parentPk) &&
            passesAll db schema through.table through.filters j)) &&
          passesAll db schema aggregate.table aggregate.filters r) := by
      intro r _
      have hin : Sql.Decides (session db raw params)
          (scope.bind b.fresh ((schema, aggregate.table), r))
          (.inSelect ⟨b.fresh, farPk⟩ ⟨b.next.fresh, through.rightKey⟩ (schema, through.table)
            b.next.fresh (andAll (equal b.next.fresh through.leftKey parent parentPk)
              junctionConds)) _ _ := Sql.decides_inSelect (column_eval (hself r))
        (rows_session raw params (hfits.fits.junction through hrelation))
        (fun j _ => column_eval (hjunctionSelf r j))
        fun j _ => named_accepts hcatalog (hjunctionSelf r j) (hjunctionParent r j) hjunction
          (hfits.junctionFilters through hrelation) hjunctionParams
      exact (filters_decides hcatalog (hself r) hconds hfits.filters hparams hin).accepts
    refine (Sql.fold_eval (Sql.table_eval (rows_session raw params hfits.fits.table)) hcond).trans ?_
    refine (hcontents fun r _ => hself r).trans ?_
    rw [List.map_id', hfarPk]
    rfl
  · next hdistinct =>
    obtain ⟨items, inScope, holds, hsource, hcond, hrow, hlinked⟩ := linked_eval hcatalog
      hfits.fits.table (hfits.fits.junction through hrelation) hfits.filters
      (hfits.junctionFilters through hrelation) hconds hparams hjunction hjunctionParams
      (b.knows_fresh).ne_fresh hne hne' hscope
    refine (Sql.fold_eval hsource hcond).trans ?_
    rw [hcontents fun i hi => hrow i (List.mem_of_mem_filter hi), hlinked, hfarPk]
    rfl

theorem aggregateValue_eval (hfits : RelationReads db schema (.aggregate aggregate))
    (h : aggregateValue schema pks colTypes aggregate parent pk b = .ok (e, b'))
    (hparams : b'.params <+: params) (hknows : b.Knows parent)
    (hscope : scope parent = some (t, row)) :
    e.eval (session db raw params) scope = some (aggregateContents db schema aggregate row pk) := by
  cases hkey : aggregate.key with
  | direct foreignKey => exact directAggregate_eval hcatalog hkey hfits h hparams hknows hscope
  | through through => exact throughAggregate_eval hcatalog hkey hfits h hparams hknows hscope

end Aggregates

section Tree

variable {S : Type} [Postgres S] [Sql.Values S] [Sql.LawfulValues S] {db : Database S}
  {schema : DatabaseSchema} {pks : TableName → Option ColumnName}
  {colTypes : TableName → ColumnName → Option String} {raw : RawTexts S}
  {params : List GenericValue} (hcatalog : Catalog db schema pks colTypes)

include hcatalog

omit hcatalog [Sql.LawfulValues S] in
theorem pairsEvaluate_of {fields : List Field}
    (hfields : ∀ g ∈ fields, ∀ {parent : Alias} {pk : Option ColumnName} {b : Builder} {e : Expr}
      {b' : Builder} {scope : Scope S} {table : TableName} {row : Row S},
      fieldValue schema pks colTypes g parent pk b = .ok (e, b') → b'.params <+: params →
        b.Knows parent → scope parent = some ((schema, table), row) →
        e.eval (session db raw params) scope =
          some (fieldContents db schema literalJson g table row pk)) :
    PairsEvaluate db schema pks colTypes raw params fields := by
  induction fields with
  | nil =>
    intro a pk b b' pairs scope table row h _ _ _
    obtain ⟨rfl, -⟩ := build_pure.mp h
    rfl
  | cons g fields ih =>
    intro a pk b b' pairs scope table row h hparams hknows hscope
    obtain ⟨e, b₁, he, h⟩ := build_bind.mp h
    obtain ⟨rest, b₂, hrest, h⟩ := build_bind.mp h
    obtain ⟨rfl, rfl⟩ := build_pure.mp h
    have hfirst := hfields g List.mem_cons_self he ((pairsOf_grows hrest).params.trans hparams)
      hknows hscope
    have hothers := ih (fun g' hg' => hfields g' (List.mem_cons_of_mem _ hg')) a pk b₁ b₂ rest scope
      table row hrest hparams (hknows.grows (fieldValue_grows g he)) hscope
    simp only [Sql.evalPairs, hfirst, hothers, pairContents, Option.bind_eq_bind, Option.bind_some,
      Option.pure_def]

theorem fieldValue_eval (field : Field) :
    (∀ relation ∈ fieldRelations field, RelationReads db schema relation) →
      ∀ {parent : Alias} {pk : Option ColumnName} {b : Builder} {e : Expr} {b' : Builder}
        {scope : Scope S} {table : TableName} {row : Row S},
      fieldValue schema pks colTypes field parent pk b = .ok (e, b') → b'.params <+: params →
        b.Knows parent → scope parent = some ((schema, table), row) →
        e.eval (session db raw params) scope =
          some (fieldContents db schema literalJson field table row pk) := by
  induction field using Field.induct with
  | node field ih =>
    intro hfits parent pk b e b' scope table row h hparams hknows hscope
    have hchildren : PairsEvaluate db schema pks colTypes raw params field.children := by
      apply pairsEvaluate_of
      intro g hg
      apply ih g hg
      intro relation hrelation
      exact hfits relation (relationsOf_children (fieldRelations_subset hg hrelation))
    cases field with
    | column name options source =>
      obtain ⟨rfl, -⟩ := build_pure.mp h
      exact columnValue_eval hscope
    | geo name options source =>
      obtain ⟨rfl, -⟩ := build_pure.mp h
      exact geoValue_eval hscope
    | constant name options value =>
      obtain ⟨rfl, -⟩ := build_pure.mp h
      exact literalOrNull_eval
    | aggregate name options source =>
      exact aggregateValue_eval hcatalog (hfits _ (List.mem_singleton.mpr rfl)) h hparams hknows
        hscope
    | group name options fields =>
      obtain ⟨pairs, b₁, hpairs, h⟩ := build_bind.mp h
      obtain ⟨rfl, rfl⟩ := build_pure.mp h
      exact objectOf_eval (hchildren _ _ _ _ _ _ _ _ hpairs hparams hknows hscope)
    | join name options source fields =>
      exact joinValue_eval hcatalog (hfits _ List.mem_cons_self) hchildren h hparams hknows hscope

/-- What the builder makes of a field list is the document of the row in scope. -/
theorem object_eval {fields : List Field} {a : Alias} {pk : Option ColumnName} {b b' : Builder}
    {pairs : List (String × Expr)} {scope : Scope S} {table : TableName} {row : Row S}
    (hfits : ∀ relation ∈ relationsOf fields, RelationReads db schema relation)
    (h : pairsOf schema pks colTypes fields a pk b = .ok (pairs, b'))
    (hparams : b'.params <+: params) (hknows : b.Knows a)
    (hscope : scope a = some ((schema, table), row)) :
    (objectOf pairs).eval (session db raw params) scope =
      some (documentContents db schema literalJson fields table row pk) := by
  refine objectOf_eval (pairsEvaluate_of (fun g hg => ?_) a pk b b' pairs scope table row h
    hparams hknows hscope)
  exact fieldValue_eval hcatalog g fun relation hrelation =>
    hfits relation (fieldRelations_subset hg hrelation)

end Tree

end Flusso.Document
