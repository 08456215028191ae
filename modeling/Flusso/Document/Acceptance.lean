import Flusso.Document.Assembly
import Flusso.Sql.Acceptance

/-! # Fields the server accepts

What the server asks of the tables and columns a field tree names before it reads
any row. The expression the builder makes of a field is accepted just where the
field is.
-/

namespace Flusso.Document

section Definitions

variable {S : Type} [Sql.Values S] (db : Database S) (raw : RawTexts S)
  (schema : DatabaseSchema)

def tableExists (table : TableName) : Bool := (db schema table).isSome

/-- Whether a column of a table can be equal to one of another. -/
def columnsCompare (table : TableName) (column : ColumnName) (table' : TableName)
    (column' : ColumnName) : Bool :=
  Sql.comparable S .eq (storedType db schema table column) (storedType db schema table' column')

/-- A list of values is not empty, and the column has the operator. -/
def filterAccepted (table : TableName) : Filter → Bool
  | .raw sql => (raw sql).isSome
  | .nullCheck column _ => (storedType db schema table column).isSome
  | .valueOp column op value =>
    let stored := storedType db schema table column
    match value with
    | .single _ => (comparison op).any fun compared => Sql.comparable S compared stored stored
    | .list values =>
      !values.isEmpty && Sql.comparable S (if op = .notIn then .ne else .eq) stored stored
    | .range _ _ => Sql.comparable S .ge stored stored && Sql.comparable S .le stored stored

def filtersAccepted (table : TableName) (fs : Option (List Filter)) : Bool :=
  (fs.getD []).all (filterAccepted db raw schema table)

def orderByAccepted (table : TableName) (orderBy : Option (List OrderBy)) : Bool :=
  (orderBy.getD []).all fun o => (storedType db schema table o.column).any (Sql.Values.sorts S)

def transformFunction : Transform → Sql.Function
  | .lowercase => .lower
  | .trim => .trim

variable (S) in
/-- The first transform takes the column's type, the others take text. -/
def transformsAccepted : List Transform → String → Bool
  | [], _ => true
  | t :: transforms, sqlType =>
    Sql.Values.function S (transformFunction t) sqlType && transformsAccepted transforms "text"

def columnAccepted (column : Column) (table : TableName) : Bool :=
  (storedType db schema table column.column).any fun sqlType =>
    transformsAccepted S column.transforms sqlType &&
      (column.default.bind scalarLiteral).all
        (Sql.Values.reads S (if column.transforms = [] then sqlType else "text"))

def foldAccepted (op : AggregateOp) (table : TableName) : Bool :=
  match op with
  | .count => true
  | .sum column => (storedType db schema table column).any (Sql.Values.function S .sum)
  | .avg column => (storedType db schema table column).any (Sql.Values.function S .avg)
  | .min column => (storedType db schema table column).any (Sql.Values.function S .min)
  | .max column => (storedType db schema table column).any (Sql.Values.function S .max)
  | .ids _ => ((keyColumn db schema table).bind (storedType db schema table)).isSome

/-- An aggregate in a document of a row of `parent`. -/
def aggregateAccepted (aggregate : Aggregate) (parent : TableName) (pk : Option ColumnName) :
    Bool :=
  let table := aggregate.table
  tableExists db schema table && filtersAccepted db raw schema table aggregate.filters &&
    foldAccepted db schema aggregate.op table && pk.any fun pk =>
      match aggregate.key with
      | .direct foreignKey => columnsCompare db schema table foreignKey parent pk
      | .through through =>
        tableExists db schema through.table &&
          filtersAccepted db raw schema through.table through.filters &&
          columnsCompare db schema through.table through.leftKey parent pk &&
          (keyColumn db schema table).any fun farPk =>
            if aggregate.distinct then
              columnsCompare db schema table farPk through.table through.rightKey
            else columnsCompare db schema through.table through.rightKey table farPk

/-- A join in a document of a row of `parent`. -/
def joinAccepted (join : Join) (parent : TableName) (pk : Option ColumnName) : Bool :=
  tableExists db schema join.table && filtersAccepted db raw schema join.table join.filters &&
    match join.kind with
    | .belongsTo column => (keyColumn db schema join.table).any fun key =>
      columnsCompare db schema join.table key parent column
    | .hasOne foreignKey | .hasMany foreignKey =>
      orderByAccepted db schema join.table join.orderBy &&
        pk.any fun pk => columnsCompare db schema join.table foreignKey parent pk
    | .manyToMany through =>
      orderByAccepted db schema join.table join.orderBy && tableExists db schema through.table &&
        filtersAccepted db raw schema through.table through.filters &&
        (pk.any fun pk => columnsCompare db schema through.table through.leftKey parent pk) &&
        (keyColumn db schema join.table).any fun farPk =>
          columnsCompare db schema through.table through.rightKey join.table farPk

mutual

def fieldAccepted : Field → TableName → Option ColumnName → Bool
  | .column _ _ source, table, _ => columnAccepted db schema source table
  | .group _ _ fields, table, pk => fieldsAccepted fields table pk
  | .geo _ _ source, table, _ =>
    (storedType db schema table source.lat).isSome && (storedType db schema table source.lon).isSome
  | .constant .., _, _ => true
  | .aggregate _ _ source, table, pk => aggregateAccepted db raw schema source table pk
  | .join _ _ join fields, table, pk =>
    joinAccepted db raw schema join table pk &&
      fieldsAccepted fields join.table (keyColumn db schema join.table)

def fieldsAccepted : List Field → TableName → Option ColumnName → Bool
  | [], _, _ => true
  | field :: fields, table, pk => fieldAccepted field table pk && fieldsAccepted fields table pk

end

end Definitions

section Leaves

variable {S : Type} [Postgres S] [Sql.Values S] {db : Database S} {schema : DatabaseSchema}
  {raw : RawTexts S} {params : List GenericValue} {table : TableName} {a : Alias}
  {typing : Sql.Typing Alias TableRef} {column : ColumnName}

omit [Sql.Values S] in
theorem hasTable_session :
    Sql.hasTable (session db raw params) (schema, table) = tableExists db schema table := by
  simp [Sql.hasTable, session, tableExists]

omit [Sql.Values S] in
theorem col_sqlType (htyping : typing a = some (schema, table)) :
    (⟨a, column⟩ : Col).sqlType (session db raw params) typing =
      storedType db schema table column := by
  simp [Sql.Col.sqlType, htyping, session]

theorem transforms_accepted {transforms : List Transform} {s : Sql.Scalar Alias ColumnName} :
    (transforms.foldl transform s).accepted (session db raw params) typing =
      (s.accepted (session db raw params) typing && (transforms = [] ||
        (s.sqlType (session db raw params) typing).any (transformsAccepted S transforms))) := by
  induction transforms generalizing s with
  | nil => simp
  | cons t transforms ih =>
    have hstep : (transform s t).accepted (session db raw params) typing =
        (s.accepted (session db raw params) typing &&
          (s.sqlType (session db raw params) typing).any
            (Sql.Values.function S (transformFunction t))) ∧
        (transform s t).sqlType (session db raw params) typing = some "text" := by
      cases t <;> exact ⟨rfl, rfl⟩
    rw [List.foldl_cons, ih, hstep.1, hstep.2]
    cases s.sqlType (session db raw params) typing with
    | none => simp
    | some sqlType =>
      cases transforms <;> simp [transformsAccepted, Bool.and_assoc]

theorem columnValue_accepted {source : Column} (htyping : typing a = some (schema, table)) :
    (columnValue source.column source.transforms source.default a).accepted
      (session db raw params) typing = columnAccepted db schema source table := by
  have htype : (Sql.Scalar.column ⟨a, source.column⟩).sqlType (session db raw params) typing =
      storedType db schema table source.column := col_sqlType htyping
  have hscalar : (source.transforms.foldl transform (.column ⟨a, source.column⟩)).accepted
      (session db raw params) typing = (storedType db schema table source.column).any
        (transformsAccepted S source.transforms) := by
    rw [transforms_accepted, htype, Sql.Scalar.accepted, col_sqlType htyping]
    cases storedType db schema table source.column with
    | none => rfl
    | some sqlType => cases source.transforms <;> simp [transformsAccepted]
  unfold columnValue columnAccepted
  dsimp only
  cases source.default.bind scalarLiteral with
  | none => simpa [Sql.Expr.accepted] using hscalar
  | some literal =>
    simp only [Sql.Expr.accepted, Sql.Scalar.accepted, hscalar, transforms_sqlType, htype]
    cases storedType db schema table source.column with
    | none => rfl
    | some sqlType => split <;> simp

theorem geoValue_accepted {geo : Geo} (htyping : typing a = some (schema, table)) :
    (geoValue geo a).accepted (session db raw params) typing =
      ((storedType db schema table geo.lat).isSome &&
        (storedType db schema table geo.lon).isSome) := by
  simp [geoValue, Sql.Expr.accepted, Sql.pairsAccepted, Sql.Scalar.accepted, col_sqlType htyping]

theorem objectOf_accepted {pairs : List (String × Expr)} :
    (objectOf pairs).accepted (session db raw params) typing =
      Sql.pairsAccepted (session db raw params) pairs typing := by
  unfold objectOf
  split <;> rw [Sql.Expr.accepted]

theorem orderClause_accepted {orderBy : Option (List OrderBy)}
    (htyping : typing a = some (schema, table)) :
    Sql.orderAccepted (session db raw params) typing (orderClause orderBy a) =
      orderByAccepted db schema table orderBy := by
  rw [Sql.orderAccepted, orderClause, List.all_map, orderByAccepted]
  congr 1
  funext o
  simp only [Function.comp_apply, col_sqlType htyping]

theorem aggFunction_accepted {op : AggregateOp} (hop : ∀ elementType, op ≠ .ids elementType)
    (htyping : typing a = some (schema, table)) :
    (aggFunction op a).accepted (session db raw params) typing = foldAccepted db schema op table := by
  cases op with
  | ids elementType => exact absurd rfl (hop elementType)
  | _ => simp [aggFunction, Sql.Fold.accepted, foldAccepted, col_sqlType htyping]

theorem idsAgg_accepted {elementType : FlussoType} {pk : ColumnName}
    (hpk : keyColumn db schema table = some pk) (htyping : typing a = some (schema, table)) :
    (idsAgg a pk).accepted (session db raw params) typing =
      foldAccepted db schema (.ids elementType) table := by
  simp [idsAgg, Sql.Fold.accepted, foldAccepted, col_sqlType htyping, hpk]

end Leaves

section Conditions

variable {S : Type} [Postgres S] [Sql.Values S] {db : Database S} {schema : DatabaseSchema}
  {pks : TableName → Option ColumnName} {colTypes : TableName → ColumnName → Option String}
  {raw : RawTexts S} {params : List GenericValue} {table : TableName} {b b' : Builder} {a : Alias}
  {typing : Sql.Typing Alias TableRef} {column : ColumnName} {cond : Cond} {conds : List Cond}

theorem andAll_accepted {base : Cond} :
    (andAll base conds).accepted (session db raw params) typing =
      (base.accepted (session db raw params) typing &&
        conds.all fun cond => cond.accepted (session db raw params) typing) := by
  unfold andAll
  induction conds generalizing base with
  | nil => simp
  | cons cond conds ih =>
    rw [List.foldl_cons, ih, List.all_cons, ← Bool.and_assoc]
    rfl

theorem equal_accepted {parent : Alias} {column' : ColumnName} {table' : TableName}
    (htyping : typing a = some (schema, table)) (hparent : typing parent = some (schema, table')) :
    (equal a column parent column').accepted (session db raw params) typing =
      columnsCompare db schema table column table' column' := by
  simp only [equal, Sql.Cond.accepted, Sql.Operand.sqlType, col_sqlType htyping,
    col_sqlType hparent, columnsCompare]

variable (hcatalog : Catalog db schema pks colTypes)

include hcatalog

omit [Postgres S] in
theorem comparable_param {op : Sql.Comparison} {value : GenericValue} {p : Sql.Param}
    (h : typedPlaceholder colTypes value table column b = .ok (p, b')) :
    Sql.comparable S op (storedType db schema table column) (some p.sqlType) =
      Sql.comparable S op (storedType db schema table column)
        (storedType db schema table column) := by
  have htype := hcatalog.types _ _ _ (typedPlaceholder_spec h).2.1
  rw [typeName] at htype
  cases hstored : storedType db schema table column with
  | none => rfl
  | some sqlType =>
    rw [hstored] at htype
    rw [← htype, Option.getD_some]

omit [Postgres S] in
theorem comparable_params {β : Type} {op : Sql.Comparison} {value : β → GenericValue}
    {vs : List β} {ps : List Sql.Param}
    (h : vs.mapM (fun v => typedPlaceholder colTypes (value v) table column) b = .ok (ps, b')) :
    (!ps.isEmpty && ps.all fun p =>
        Sql.comparable S op (storedType db schema table column) (some p.sqlType)) =
      (!vs.isEmpty && Sql.comparable S op (storedType db schema table column)
        (storedType db schema table column)) := by
  obtain ⟨-, hall⟩ := mapM_build (fun v _ _ _ _ h => typedPlaceholder_grows h) h
  clear h
  induction hall with
  | nil => rfl
  | @cons v p vs ps hp _ ih =>
    obtain ⟨b₁, b₂, -, hp, -⟩ := hp
    rw [List.all_cons, comparable_param hcatalog hp]
    cases ps with
    | nil => simp
    | cons p' ps =>
      cases vs with
      | nil => cases ‹List.Forall₂ _ [] _›
      | cons v' vs =>
        simp only [List.isEmpty_cons, Bool.not_false, Bool.true_and] at ih ⊢
        rw [ih, Bool.and_self]

theorem valueOp_accepted {op : FilterOp} {value : FilterValue}
    (h : valueOp colTypes column op value a table b = .ok (cond, b'))
    (htyping : typing a = some (schema, table)) :
    cond.accepted (session db raw params) typing =
      filterAccepted db raw schema table (.valueOp column op value) := by
  cases value with
  | single v =>
    rw [valueOp_single] at h
    cases hop : comparison op with
    | none =>
      rw [hop] at h
      cases h
    | some compared =>
      rw [hop] at h
      obtain ⟨p, b₁, hp, h⟩ := build_bind.mp h
      obtain ⟨rfl, rfl⟩ := build_pure.mp h
      simp only [filterAccepted, hop, Option.any_some, Sql.Cond.accepted, Sql.Operand.sqlType,
        col_sqlType htyping, comparable_param hcatalog hp]
  | list vs =>
    rw [valueOp_list] at h
    split at h
    · next hop =>
      obtain ⟨ps, b₁, hps, h⟩ := build_bind.mp h
      obtain ⟨rfl, rfl⟩ := build_pure.mp h
      subst hop
      simp only [Sql.Cond.accepted, col_sqlType htyping]
      exact comparable_params hcatalog hps
    · split at h
      · next hop =>
        obtain ⟨ps, b₁, hps, h⟩ := build_bind.mp h
        obtain ⟨rfl, rfl⟩ := build_pure.mp h
        subst hop
        simp only [Sql.Cond.accepted, col_sqlType htyping]
        exact comparable_params hcatalog hps
      · cases h
  | range lower upper =>
    rw [valueOp_range] at h
    split at h
    · obtain ⟨p, b₁, hp, h⟩ := build_bind.mp h
      obtain ⟨p', b₂, hp', h⟩ := build_bind.mp h
      obtain ⟨rfl, rfl⟩ := build_pure.mp h
      simp only [filterAccepted, Sql.Cond.accepted, col_sqlType htyping,
        comparable_param hcatalog hp, comparable_param hcatalog hp']
    · cases h

theorem filter_accepted {f : Filter} (h : filter colTypes f a table b = .ok (cond, b'))
    (htyping : typing a = some (schema, table)) :
    cond.accepted (session db raw params) typing = filterAccepted db raw schema table f := by
  cases f with
  | raw sql =>
    obtain ⟨rfl, rfl⟩ := build_pure.mp h
    rfl
  | nullCheck column op =>
    obtain ⟨rfl, rfl⟩ := build_pure.mp h
    simp only [Sql.Cond.accepted, col_sqlType htyping, filterAccepted]
  | valueOp column op value => exact valueOp_accepted hcatalog h htyping

theorem filters_accepted {fs : Option (List Filter)}
    (h : filters colTypes fs a table b = .ok (conds, b'))
    (htyping : typing a = some (schema, table)) :
    (conds.all fun cond => cond.accepted (session db raw params) typing) =
      filtersAccepted db raw schema table fs := by
  obtain ⟨-, hall⟩ := mapM_build (fun _ _ _ _ _ h => filter_grows h) h
  clear h
  unfold filtersAccepted
  generalize fs.getD [] = fs at hall
  induction hall with
  | nil => rfl
  | cons hf _ ih =>
    obtain ⟨b₁, b₂, -, hf, -⟩ := hf
    rw [List.all_cons, List.all_cons, filter_accepted hcatalog hf htyping, ih]

end Conditions

section Relations

variable {S : Type} [Postgres S] [Sql.Values S] {db : Database S} {schema : DatabaseSchema}
  {pks : TableName → Option ColumnName} {colTypes : TableName → ColumnName → Option String}
  {raw : RawTexts S} {params : List GenericValue} {owner : TableName} {b b' : Builder}
  {parent : Alias} {typing : Sql.Typing Alias TableRef} {pk : Option ColumnName} {e : Expr}
  (hcatalog : Catalog db schema pks colTypes)

include hcatalog

theorem directAggregate_accepted {aggregate : Aggregate} {foreignKey : ColumnName}
    (hkey : aggregate.key = .direct foreignKey)
    (h : aggregateValue schema pks colTypes aggregate parent pk b = .ok (e, b'))
    (hknows : b.Knows parent) (hparent : typing parent = some (schema, owner)) :
    e.accepted (session db raw params) typing =
      aggregateAccepted db raw schema aggregate owner pk := by
  obtain ⟨parentPk, fold, conds, rfl, hids, hother, hconds, rfl⟩ := directAggregate_spec hkey h
  have hself : typing.bind b.fresh (schema, aggregate.table) b.fresh =
      some (schema, aggregate.table) := Sql.Typing.bind_self
  have hparent' :=
    (Sql.Typing.bind_of_ne (t := (schema, aggregate.table)) hknows.ne_fresh).trans hparent
  have hfold : fold.accepted (session db raw params)
      (typing.bind b.fresh (schema, aggregate.table)) =
        foldAccepted db schema aggregate.op aggregate.table := by
    by_cases hop : ∃ elementType, aggregate.op = .ids elementType
    · obtain ⟨elementType, hop⟩ := hop
      obtain ⟨tablePk, htable, rfl⟩ := hids elementType hop
      rw [hop]
      exact idsAgg_accepted (hcatalog.pks _ _ htable) hself
    · have hop' : ∀ elementType, aggregate.op ≠ .ids elementType := fun elementType h =>
        hop ⟨elementType, h⟩
      rw [hother hop']
      exact aggFunction_accepted hop' hself
  simp only [Sql.Expr.accepted, Sql.From.typing, Sql.From.accepted, hasTable_session,
    andAll_accepted, equal_accepted hself hparent', filters_accepted hcatalog hconds hself, hfold,
    aggregateAccepted, hkey, Option.any_some]
  ac_rfl

theorem throughAggregate_accepted {aggregate : Aggregate} {through : Through}
    (hkey : aggregate.key = .through through)
    (h : aggregateValue schema pks colTypes aggregate parent pk b = .ok (e, b'))
    (hknows : b.Knows parent) (hparent : typing parent = some (schema, owner)) :
    e.accepted (session db raw params) typing =
      aggregateAccepted db raw schema aggregate owner pk := by
  obtain ⟨parentPk, farPk, fold, junctionConds, conds, b₁, rfl, hfar, hfold, hjunction, hconds,
    rfl⟩ := throughAggregate_spec hkey h
  have hfarPk := hcatalog.pks _ _ hfar
  have hself : typing.bind b.fresh (schema, aggregate.table) b.fresh =
      some (schema, aggregate.table) := Sql.Typing.bind_self
  have hparent' :=
    (Sql.Typing.bind_of_ne (t := (schema, aggregate.table)) hknows.ne_fresh).trans hparent
  obtain ⟨hfarBoth, hjunctionBoth, hparentBoth⟩ := Sql.Typing.bind_bind
    (t := (schema, aggregate.table)) (u := (schema, through.table)) (b.knows_fresh).ne_fresh
    hknows.ne_fresh
    (hknows.grows b.grows_next).ne_fresh hparent
  have hfolds : ∀ inner : Sql.Typing Alias TableRef,
      inner b.fresh = some (schema, aggregate.table) →
        fold.accepted (session db raw params) inner =
          foldAccepted db schema aggregate.op aggregate.table := by
    intro inner hinner
    rw [hfold]
    cases hop : aggregate.op with
    | ids elementType => exact idsAgg_accepted hfarPk hinner
    | _ => exact aggFunction_accepted (fun _ h => by cases h) hinner
  simp only [aggregateAccepted, hkey, hfarPk, Option.any_some]
  split
  · simp only [Sql.Expr.accepted, Sql.From.typing, Sql.From.accepted, Sql.Cond.accepted,
      hasTable_session, andAll_accepted, equal_accepted hjunctionBoth hparentBoth,
      filters_accepted hcatalog hconds hself, filters_accepted hcatalog hjunction hjunctionBoth,
      hfolds _ hself, col_sqlType hself, col_sqlType hjunctionBoth, columnsCompare]
    ac_rfl
  · simp only [Sql.Expr.accepted, Sql.From.typing, Sql.From.accepted, hasTable_session,
      andAll_accepted, List.all_append, equal_accepted hjunctionBoth hparentBoth,
      filters_accepted hcatalog hconds hfarBoth, filters_accepted hcatalog hjunction hjunctionBoth,
      hfolds _ hfarBoth, col_sqlType hfarBoth, col_sqlType hjunctionBoth, columnsCompare]
    ac_rfl

theorem aggregateValue_accepted {aggregate : Aggregate}
    (h : aggregateValue schema pks colTypes aggregate parent pk b = .ok (e, b'))
    (hknows : b.Knows parent) (hparent : typing parent = some (schema, owner)) :
    e.accepted (session db raw params) typing =
      aggregateAccepted db raw schema aggregate owner pk := by
  cases hkey : aggregate.key with
  | direct foreignKey => exact directAggregate_accepted hcatalog hkey h hknows hparent
  | through through => exact throughAggregate_accepted hcatalog hkey h hknows hparent

theorem join_accepted {name : FieldName} {options : Options} {join : Join} {fields : List Field}
    (hfields : ∀ {a : Alias} {pk : Option ColumnName} {b b' : Builder}
      {pairs : List (String × Expr)} {typing : Sql.Typing Alias TableRef},
      pairsOf schema pks colTypes fields a pk b = .ok (pairs, b') → b.Knows a →
        typing a = some (schema, join.table) →
        Sql.pairsAccepted (session db raw params) pairs typing =
          fieldsAccepted db raw schema fields join.table pk)
    (h : fieldValue schema pks colTypes (.join name options join fields) parent pk b =
      .ok (e, b'))
    (hknows : b.Knows parent) (hparent : typing parent = some (schema, owner)) :
    e.accepted (session db raw params) typing =
      (joinAccepted db raw schema join owner pk &&
        fieldsAccepted db raw schema fields join.table (keyColumn db schema join.table)) := by
  have hself (a : Alias) : typing.bind a (schema, join.table) a = some (schema, join.table) :=
    Sql.Typing.bind_self
  have hother {a : Alias} (hne : parent ≠ a) :
      typing.bind a (schema, join.table) parent = some (schema, owner) :=
    (Sql.Typing.bind_of_ne hne).trans hparent
  have hobject {key : ColumnName} {b' : Builder} {pairs : List (String × Expr)}
      (hkey : pks join.table = some key)
      (hpairs : pairsOf schema pks colTypes fields b.fresh (some key) b.next = .ok (pairs, b')) :
      (objectOf pairs).accepted (session db raw params)
          (typing.bind b.fresh (schema, join.table)) =
        fieldsAccepted db raw schema fields join.table (keyColumn db schema join.table) := by
    rw [objectOf_accepted, hfields hpairs b.knows_fresh (hself _), hcatalog.pks _ _ hkey]
  cases hkind : join.kind with
  | belongsTo column =>
    obtain ⟨targetPk, pairs, conds, b₁, htarget, hpairs, hconds, rfl⟩ := belongsTo_spec hkind h
    simp only [Sql.Expr.accepted, Sql.From.typing, Sql.From.accepted, hasTable_session,
      andAll_accepted, equal_accepted (hself _) (hother hknows.ne_fresh),
      filters_accepted hcatalog hconds (hself _), hobject htarget hpairs, joinAccepted, hkind,
      hcatalog.pks _ _ htarget, Option.any_some, Sql.orderAccepted, List.all_nil]
    ac_rfl
  | hasOne foreignKey =>
    obtain ⟨parentPk, childPk, pairs, conds, b₁, rfl, hchild, hpairs, hconds, rfl⟩ :=
      hasOne_spec hkind h
    simp only [Sql.Expr.accepted, Sql.From.typing, Sql.From.accepted, hasTable_session,
      andAll_accepted, equal_accepted (hself _) (hother hknows.ne_fresh),
      filters_accepted hcatalog hconds (hself _), orderClause_accepted (hself _),
      hobject hchild hpairs, joinAccepted, hkind, Option.any_some]
    ac_rfl
  | hasMany foreignKey =>
    obtain ⟨parentPk, childPk, pairs, conds, b₁, rfl, hchild, hpairs, hconds, rfl⟩ :=
      hasMany_spec hkind h
    have hinner := hother ((hknows.grows b.grows_next).grows (pairsOf_grows hpairs)).ne_fresh
    have hderived : Function.update typing b.fresh
        (typing.bind b₁.fresh (schema, join.table) b₁.fresh) =
          typing.bind b.fresh (schema, join.table) := by
      rw [hself]
      rfl
    simp only [Sql.Expr.accepted, Sql.Select.accepted, Sql.From.typing, Sql.From.accepted,
      hasTable_session, andAll_accepted, equal_accepted (hself _) hinner,
      filters_accepted hcatalog hconds (hself _), orderClause_accepted (hself _), hderived,
      hobject hchild hpairs, joinAccepted, hkind, Option.any_some]
    rw [← Bool.and_self (orderByAccepted db schema join.table join.orderBy)]
    ac_rfl
  | manyToMany through =>
    obtain ⟨parentPk, farPk, pairs, conds, junctionConds, b₁, b₂, rfl, hfar, hpairs, hconds,
      hjunction, rfl⟩ := manyToMany_spec hkind h
    have hknows' := (hknows.grows b.grows_next).grows (pairsOf_grows hpairs)
    obtain ⟨hfarBoth, hjunctionBoth, hparentBoth⟩ := Sql.Typing.bind_bind
      (t := (schema, join.table)) (u := (schema, through.table)) (b₁.knows_fresh).ne_fresh
      hknows'.ne_fresh (hknows'.grows b₁.grows_next).ne_fresh hparent
    have hderived : Function.update typing b.fresh (((typing.bind b₁.fresh
        (schema, join.table)).bind b₁.next.fresh (schema, through.table)) b₁.fresh) =
          typing.bind b.fresh (schema, join.table) := by
      rw [hfarBoth]
      rfl
    simp only [Sql.Expr.accepted, Sql.Select.accepted, Sql.From.typing, Sql.From.accepted,
      hasTable_session, andAll_accepted, List.all_append,
      equal_accepted hjunctionBoth hparentBoth, filters_accepted hcatalog hconds hfarBoth,
      filters_accepted hcatalog hjunction hjunctionBoth, orderClause_accepted hfarBoth,
      orderClause_accepted (hself _), col_sqlType hfarBoth, col_sqlType hjunctionBoth, hderived,
      hobject hfar hpairs, joinAccepted, hkind, hcatalog.pks _ _ hfar, Option.any_some,
      columnsCompare]
    rw [← Bool.and_self (orderByAccepted db schema join.table join.orderBy)]
    ac_rfl

omit hcatalog in
theorem pairsOf_accepted_of {fields : List Field}
    (hfields : ∀ g ∈ fields, ∀ {parent : Alias} {pk : Option ColumnName} {b : Builder} {e : Expr}
      {b' : Builder} {typing : Sql.Typing Alias TableRef} {owner : TableName},
      fieldValue schema pks colTypes g parent pk b = .ok (e, b') → b.Knows parent →
        typing parent = some (schema, owner) →
        e.accepted (session db raw params) typing = fieldAccepted db raw schema g owner pk)
    {pairs : List (String × Expr)}
    (h : pairsOf schema pks colTypes fields parent pk b = .ok (pairs, b'))
    (hknows : b.Knows parent) (hparent : typing parent = some (schema, owner)) :
    Sql.pairsAccepted (session db raw params) pairs typing =
      fieldsAccepted db raw schema fields owner pk := by
  induction fields generalizing b pairs with
  | nil =>
    obtain ⟨rfl, -⟩ := build_pure.mp h
    rfl
  | cons g fields ih =>
    obtain ⟨e, b₁, he, h⟩ := build_bind.mp h
    obtain ⟨rest, b₂, hrest, h⟩ := build_bind.mp h
    obtain ⟨rfl, rfl⟩ := build_pure.mp h
    rw [Sql.pairsAccepted, fieldsAccepted, hfields g List.mem_cons_self he hknows hparent,
      ih (fun g' hg' => hfields g' (List.mem_cons_of_mem _ hg')) hrest
        (hknows.grows (fieldValue_grows g he))]

theorem fieldValue_accepted (field : Field) : ∀ {parent : Alias} {pk : Option ColumnName}
    {b : Builder} {e : Expr} {b' : Builder} {typing : Sql.Typing Alias TableRef}
    {owner : TableName}, fieldValue schema pks colTypes field parent pk b = .ok (e, b') →
      b.Knows parent → typing parent = some (schema, owner) →
      e.accepted (session db raw params) typing =
        fieldAccepted db raw schema field owner pk := by
  induction field using Field.induct with
  | node field ih =>
    intro parent pk b e b' typing owner h hknows hparent
    cases field with
    | column name options source =>
      obtain ⟨rfl, -⟩ := build_pure.mp h
      exact columnValue_accepted hparent
    | geo name options source =>
      obtain ⟨rfl, -⟩ := build_pure.mp h
      exact geoValue_accepted hparent
    | constant name options value =>
      obtain ⟨rfl, -⟩ := build_pure.mp h
      unfold literalOrNull
      split <;> rfl
    | aggregate name options source => exact aggregateValue_accepted hcatalog h hknows hparent
    | group name options fields =>
      obtain ⟨pairs, b₁, hpairs, h⟩ := build_bind.mp h
      obtain ⟨rfl, rfl⟩ := build_pure.mp h
      rw [objectOf_accepted]
      exact pairsOf_accepted_of ih hpairs hknows hparent
    | join name options join fields =>
      exact join_accepted hcatalog (fun hpairs hknows hparent =>
        pairsOf_accepted_of ih hpairs hknows hparent) h hknows hparent

/-- The object of a field list is accepted just where every field is. -/
theorem object_accepted {fields : List Field} {pairs : List (String × Expr)}
    (h : pairsOf schema pks colTypes fields parent pk b = .ok (pairs, b'))
    (hknows : b.Knows parent) (hparent : typing parent = some (schema, owner)) :
    (objectOf pairs).accepted (session db raw params) typing =
      fieldsAccepted db raw schema fields owner pk := by
  rw [objectOf_accepted]
  exact pairsOf_accepted_of (fun g _ => fieldValue_accepted hcatalog g) h hknows hparent

end Relations

section Filters

variable {S : Type} [Postgres S] [Sql.Values S] {db : Database S} {schema : DatabaseSchema}
  {raw : RawTexts S} {table : TableName}

theorem Spelled.readable {f : Filter} (h : Spelled db schema table f)
    (haccepted : filterAccepted db raw schema table f = true) : Readable db schema table f where
  spelled := h
  listed := by
    rintro column op rfl
    cases haccepted

theorem readable_of_accepted {fs : Option (List Filter)}
    (h : ∀ f ∈ fs.getD [], Spelled db schema table f)
    (haccepted : filtersAccepted db raw schema table fs = true) :
    ∀ f ∈ fs.getD [], Readable db schema table f :=
  fun f hf => (h f hf).readable (List.all_eq_true.mp haccepted f hf)

variable (db schema raw) in
/-- Whether the filters of a relation are accepted. -/
structure RelationAccepted (relation : Relation) : Prop where
  filters : filtersAccepted db raw schema relation.table relation.filters = true
  junctionFilters : ∀ through, relation.key = .through through →
    filtersAccepted db raw schema through.table through.filters = true

theorem RelationAccepted.reads {relation : Relation} (h : RelationAccepted db schema raw relation)
    (hfits : RelationFits db schema relation) : RelationReads db schema relation where
  fits := hfits
  filters := readable_of_accepted hfits.filters h.filters
  junctionFilters through hkey :=
    readable_of_accepted (hfits.junctionFilters through hkey) (h.junctionFilters through hkey)

omit [Postgres S] in
theorem relationAccepted_join {join : Join} {pk : Option ColumnName}
    (h : joinAccepted db raw schema join table pk = true) :
    RelationAccepted db schema raw (.join join) := by
  rw [joinAccepted, Bool.and_eq_true, Bool.and_eq_true] at h
  refine ⟨h.1.2, fun through hkey => ?_⟩
  have hkind := h.2
  cases hjoin : join.kind with
  | manyToMany through' =>
    rw [Relation.key, hjoin] at hkey
    cases hkey
    simp only [hjoin, Bool.and_eq_true] at hkind
    exact hkind.1.1.2
  | _ =>
    rw [Relation.key, hjoin] at hkey
    cases hkey

omit [Postgres S] in
theorem relationAccepted_aggregate {aggregate : Aggregate} {pk : Option ColumnName}
    (h : aggregateAccepted db raw schema aggregate table pk = true) :
    RelationAccepted db schema raw (.aggregate aggregate) := by
  simp only [aggregateAccepted, Bool.and_eq_true] at h
  obtain ⟨⟨⟨-, hfilters⟩, -⟩, hpk⟩ := h
  refine ⟨hfilters, fun through hkey => ?_⟩
  obtain ⟨parentPk, -, hpk⟩ := (Option.any_eq_true _ _).mp hpk
  cases haggregate : aggregate.key with
  | direct foreignKey =>
    rw [Relation.key, haggregate] at hkey
    cases hkey
  | through through' =>
    rw [Relation.key, haggregate] at hkey
    cases hkey
    simp only [haggregate, Bool.and_eq_true] at hpk
    exact hpk.1.1.2

omit [Postgres S] in
theorem relationsAccepted_of {fields : List Field}
    (hfields : ∀ g ∈ fields, ∀ {table : TableName} {pk : Option ColumnName},
      fieldAccepted db raw schema g table pk = true →
        ∀ relation ∈ fieldRelations g, RelationAccepted db schema raw relation)
    {pk : Option ColumnName} (h : fieldsAccepted db raw schema fields table pk = true) :
    ∀ relation ∈ relationsOf fields, RelationAccepted db schema raw relation := by
  induction fields with
  | nil => exact List.forall_mem_nil _
  | cons g fields ih =>
    rw [fieldsAccepted, Bool.and_eq_true] at h
    rw [relationsOf, List.forall_mem_append]
    exact ⟨hfields g List.mem_cons_self h.1,
      ih (fun g' hg' => hfields g' (List.mem_cons_of_mem _ hg')) h.2⟩

omit [Postgres S] in
theorem relationsAccepted (field : Field) : ∀ {table : TableName} {pk : Option ColumnName},
    fieldAccepted db raw schema field table pk = true →
      ∀ relation ∈ fieldRelations field, RelationAccepted db schema raw relation := by
  induction field using Field.induct with
  | node field ih =>
    intro table pk h
    cases field with
    | aggregate name options source =>
      exact List.forall_mem_singleton.mpr (relationAccepted_aggregate h)
    | group name options fields => exact relationsAccepted_of ih h
    | join name options join fields =>
      rw [fieldAccepted, Bool.and_eq_true] at h
      exact List.forall_mem_cons.mpr ⟨relationAccepted_join h.1, relationsAccepted_of ih h.2⟩
    | _ => exact List.forall_mem_nil _

end Filters

end Flusso.Document
