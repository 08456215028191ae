import Flusso.Document.Fields
import Flusso.Kernel.Display
import Flusso.Sql.Syntax

/-! # The document query

A field tree becomes one expression that assembles a whole document: columns of
the row in scope, objects, and a correlated subquery for each relation. The
builder hands out relation aliases and collects the bound parameters.
-/

namespace Flusso.Document

/-- A row of the document query: the root's, or a relation's by its number. -/
inductive Alias where
  | root
  | rel (n : ℕ)
  deriving DecidableEq

def Alias.text : Alias → String
  | root => "root"
  | rel n => "rel" ++ toString n

abbrev TableRef := DatabaseSchema × TableName

abbrev Col := Sql.Col Alias ColumnName
abbrev Cond := Sql.Cond Alias ColumnName TableRef
abbrev Expr := Sql.Expr Alias ColumnName TableRef

def qident (ident : String) : String := "\"" ++ ident ++ "\""

/-- Identifiers in quotes, tables with their schema. -/
def names : Sql.Names Alias ColumnName TableRef where
  row a := qident a.text
  column c := qident c.name
  table t := qident t.1.name ++ "." ++ qident t.2.name

/-- Why a document query cannot be built. -/
inductive BuildError where
  | unbindable
  | missingPrimaryKey (table : TableName)
  | missingType (table : TableName) (column : ColumnName)
  | arity (op : FilterOp)
  | parentWithoutKey
  deriving DecidableEq

def opName : FilterOp → String
  | .eq => "Eq"
  | .neq => "Neq"
  | .lt => "Lt"
  | .lte => "Lte"
  | .gt => "Gt"
  | .gte => "Gte"
  | .isIn => "In"
  | .notIn => "NotIn"
  | .like => "Like"
  | .ilike => "Ilike"
  | .between => "Between"

/-- The error as it is reported. -/
def BuildError.text : BuildError → String
  | .unbindable => "cannot bind null, array, or map as a parameter"
  | .missingPrimaryKey table => s!"internal: missing primary key for `{table.name}`"
  | .missingType table column => s!"internal: missing type for `{table.name}.{column.name}`"
  | .arity op => "filter operator " ++ opName op ++ " does not match its value's arity"
  | .parentWithoutKey => "relations require the parent table to declare a primary key"

section Fragments

/-- The literal a value is written as; null and what is not a scalar have none. -/
def scalarLiteral (value : GenericValue) : Option String := value.display

def literalOrNull (value : GenericValue) : Expr :=
  match scalarLiteral value with
  | some text => .literal text
  | none => .null

def transform (expr : Sql.Scalar Alias ColumnName) : Transform → Sql.Scalar Alias ColumnName
  | .lowercase => .lower expr
  | .trim => .trim expr

/-- A column wrapped by its transforms and its default. -/
def columnValue (column : ColumnName) (transforms : List Transform) (default : Option GenericValue)
    (a : Alias) : Expr :=
  let transformed := transforms.foldl transform (.column ⟨a, column⟩)
  match default.bind scalarLiteral with
  | some literal => .scalar (.coalesce transformed literal)
  | none => .scalar transformed

def geoValue (geo : Geo) (a : Alias) : Expr :=
  let lat : Col := ⟨a, geo.lat⟩
  let lon : Col := ⟨a, geo.lon⟩
  .unlessNull lat lon
    (.object [("lat", .scalar (.column lat)), ("lon", .scalar (.column lon))])

def orderClause (orderBy : Option (List OrderBy)) (a : Alias) :
    List (Sql.Order Alias ColumnName) :=
  (orderBy.getD []).map fun o => ⟨⟨a, o.column⟩, o.direction = some .desc⟩

/-- The folding of an aggregate over a column; collected ids are handled apart. -/
def aggFunction (op : AggregateOp) (a : Alias) : Sql.Fold Alias ColumnName :=
  match op with
  | .count => .count
  | .sum column => .sum ⟨a, column⟩
  | .avg column => .avg ⟨a, column⟩
  | .min column => .min ⟨a, column⟩
  | .max column => .max ⟨a, column⟩
  | .ids _ => .null

def idsAgg (a : Alias) (column : ColumnName) : Sql.Fold Alias ColumnName := .collect ⟨a, column⟩

/-- Most pairs one `json_build_object` can hold. -/
def maxPairsPerObject : ℕ := 50

def objectOf (pairs : List (String × Expr)) : Expr :=
  if pairs.length ≤ maxPairsPerObject then .object pairs else .merged maxPairsPerObject pairs

/-- `… AND (cond)` for each condition. -/
def andAll (base : Cond) (conditions : List Cond) : Cond :=
  conditions.foldl (fun cond condition => .and cond (.paren condition)) base

end Fragments

/-- The parameters bound so far, and the number of aliases handed out. -/
structure Builder where
  params : List GenericValue
  seq : ℕ

abbrev Build := StateT Builder (Except BuildError)

section Build

variable (schema : DatabaseSchema) (pks : TableName → Option ColumnName)
  (colTypes : TableName → ColumnName → Option String)

def placeholder (value : GenericValue) : Build ℕ := do
  if value.isBindableScalar then
    let builder ← get
    set { builder with params := builder.params ++ [value] }
    pure (builder.params.length + 1)
  else throw .unbindable

def newAlias : Build Alias := do
  let builder ← get
  set { builder with seq := builder.seq + 1 }
  pure (.rel (builder.seq + 1))

def pkOf (table : TableName) : Build ColumnName :=
  match pks table with
  | some pk => pure pk
  | none => throw (.missingPrimaryKey table)

def requirePk (parentPk : Option ColumnName) : Build ColumnName :=
  match parentPk with
  | some pk => pure pk
  | none => throw .parentWithoutKey

/-- A bound value cast to its column's type. -/
def typedPlaceholder (value : GenericValue) (table : TableName) (column : ColumnName) :
    Build Sql.Param := do
  match colTypes table column with
  | some sqlType => return ⟨← placeholder value, sqlType⟩
  | none => throw (.missingType table column)

def typedParam (value : String) (table : TableName) (column : ColumnName) : Build Sql.Param :=
  typedPlaceholder colTypes (.string value) table column

def comparison : FilterOp → Option Sql.Comparison
  | .eq => some .eq
  | .neq => some .ne
  | .lt => some .lt
  | .lte => some .le
  | .gt => some .gt
  | .gte => some .ge
  | .like => some .like
  | .ilike => some .ilike
  | .isIn | .notIn | .between => none

def valueOp (column : ColumnName) (op : FilterOp) (value : FilterValue) (a : Alias)
    (table : TableName) : Build Cond := do
  let c : Col := ⟨a, column⟩
  match op, value with
  | .isIn, .list values =>
    return .within false c (← values.mapM fun v => typedParam colTypes v table column)
  | .notIn, .list values =>
    return .within true c (← values.mapM fun v => typedParam colTypes v table column)
  | .between, .range lower upper =>
    let lower ← typedParam colTypes lower table column
    return .between c lower (← typedParam colTypes upper table column)
  | op, .single v =>
    match comparison op with
    | some compared => return .compare compared c (.param (← typedParam colTypes v table column))
    | none => throw (.arity op)
  | op, _ => throw (.arity op)

def filter (f : Filter) (a : Alias) (table : TableName) : Build Cond :=
  match f with
  | .raw sql => pure (.raw sql)
  | .nullCheck column op => pure (.isNull (op = .isNotNull) ⟨a, column⟩)
  | .valueOp column op value => valueOp colTypes column op value a table

/-- The conditions of a filter list on the rows of an alias. -/
def filters (fs : Option (List Filter)) (a : Alias) (table : TableName) : Build (List Cond) :=
  (fs.getD []).mapM fun f => filter colTypes f a table

def equal (a : Alias) (column : ColumnName) (b : Alias) (column' : ColumnName) : Cond :=
  .compare .eq ⟨a, column⟩ (.column ⟨b, column'⟩)

def aggregateValue (aggregate : Aggregate) (parent : Alias) (parentPk : Option ColumnName) :
    Build Expr := do
  let parentPk ← requirePk parentPk
  match aggregate.key with
  | .direct foreignKey =>
    let a ← newAlias
    let fold ← match aggregate.op with
      | .ids _ => (idsAgg a ·) <$> pkOf pks aggregate.table
      | op => pure (aggFunction op a)
    let conditions ← filters colTypes aggregate.filters a aggregate.table
    return .fold fold (.table (schema, aggregate.table) a)
      (andAll (equal a foreignKey parent parentPk) conditions)
  | .through through =>
    let farPk ← pkOf pks aggregate.table
    let a ← newAlias
    let junction ← newAlias
    let fold := match aggregate.op with
      | .ids _ => idsAgg a farPk
      | op => aggFunction op a
    let junctionConditions ← filters colTypes through.filters junction through.table
    let conditions ← filters colTypes aggregate.filters a aggregate.table
    if aggregate.distinct then
      return .fold fold (.table (schema, aggregate.table) a)
        (andAll (.inSelect ⟨a, farPk⟩ ⟨junction, through.rightKey⟩ (schema, through.table) junction
          (andAll (equal junction through.leftKey parent parentPk) junctionConditions)) conditions)
    else
      return .fold fold
        (.joined (schema, aggregate.table) a (schema, through.table) junction
          ⟨junction, through.rightKey⟩ ⟨a, farPk⟩)
        (andAll (equal junction through.leftKey parent parentPk)
          (conditions ++ junctionConditions))

mutual

def fieldValue : Field → Alias → Option ColumnName → Build Expr
  | .column _ _ source, parent, _ =>
    pure (columnValue source.column source.transforms source.default parent)
  | .group _ _ fields, parent, parentPk => return objectOf (← pairsOf fields parent parentPk)
  | .geo _ _ source, parent, _ => pure (geoValue source parent)
  | .constant _ _ value, _, _ => pure (literalOrNull value)
  | .aggregate _ _ source, parent, parentPk =>
    aggregateValue schema pks colTypes source parent parentPk
  | .join _ _ join fields, parent, parentPk =>
    match join.kind with
    | .belongsTo column => do
      let targetPk ← pkOf pks join.table
      let a ← newAlias
      let object := objectOf (← pairsOf fields a (some targetPk))
      let conditions ← filters colTypes join.filters a join.table
      return .first object (.table (schema, join.table) a)
        (andAll (equal a targetPk parent column) conditions) []
    | .hasOne foreignKey => do
      let parentPk ← requirePk parentPk
      let childPk ← pkOf pks join.table
      let a ← newAlias
      let object := objectOf (← pairsOf fields a (some childPk))
      let conditions ← filters colTypes join.filters a join.table
      return .first object (.table (schema, join.table) a)
        (andAll (equal a foreignKey parent parentPk) conditions) (orderClause join.orderBy a)
    | .hasMany foreignKey => do
      let parentPk ← requirePk parentPk
      let childPk ← pkOf pks join.table
      let derived ← newAlias
      let object := objectOf (← pairsOf fields derived (some childPk))
      let inner ← newAlias
      let conditions ← filters colTypes join.filters inner join.table
      let rows : Sql.Select Alias ColumnName TableRef :=
        ⟨inner, .table (schema, join.table) inner,
          andAll (equal inner foreignKey parent parentPk) conditions,
          orderClause join.orderBy inner, join.limit⟩
      return .array object rows derived (orderClause join.orderBy derived)
    | .manyToMany through => do
      let parentPk ← requirePk parentPk
      let farPk ← pkOf pks join.table
      let derived ← newAlias
      let object := objectOf (← pairsOf fields derived (some farPk))
      let far ← newAlias
      let junction ← newAlias
      let conditions ← filters colTypes join.filters far join.table
      let junctionConditions ← filters colTypes through.filters junction through.table
      let rows : Sql.Select Alias ColumnName TableRef :=
        ⟨far, .joined (schema, join.table) far (schema, through.table) junction
            ⟨junction, through.rightKey⟩ ⟨far, farPk⟩,
          andAll (equal junction through.leftKey parent parentPk)
            (conditions ++ junctionConditions),
          orderClause join.orderBy far, join.limit⟩
      return .array object rows derived (orderClause join.orderBy derived)

/-- The pairs of an object over a field list, the row in scope being `parent`. -/
def pairsOf : List Field → Alias → Option ColumnName → Build (List (String × Expr))
  | [], _, _ => pure []
  | field :: fields, parent, parentPk => do
    let value ← fieldValue field parent parentPk
    let rest ← pairsOf fields parent parentPk
    return (field.field.name, value) :: rest

end

/-- True of a soft-deleted root row: its marker stands and the `when` filters match. -/
def softDeletePredicate (index : IndexSchema) : Build (Option Cond) :=
  let predicate (column : ColumnName) (conditions : Option (List Filter)) : Build Cond := do
    let conditions ← filters colTypes conditions .root index.table
    return andAll (.paren (.marked ⟨.root, column⟩)) conditions
  match index.softDelete with
  | none => pure none
  | some (.column column conditions) => some <$> predicate column conditions
  | some (.field field conditions) =>
    match fieldColumn field index.fields with
    | some column => some <$> predicate column conditions
    | none => pure none

end Build

/-- A query for documents: per root row the assembled object, after the root key where several
are asked for. -/
structure DocumentQuery where
  docKey : Option Col
  object : Expr
  table : TableRef
  cond : Cond

def DocumentQuery.text (q : DocumentQuery) : String :=
  "SELECT " ++
    (match q.docKey with | some c => c.text names ++ " AS \"doc_key\", " | none => "") ++
    q.object.text names ++ " AS \"document\" FROM " ++ names.table q.table ++ " AS " ++
    names.row .root ++ " WHERE " ++ q.cond.text names

section Entry

variable (pks : TableName → Option ColumnName)
  (colTypes : TableName → ColumnName → Option String) (index : IndexSchema)

def allOf : List Cond → Cond
  | [] => .always
  | cond :: conds => conds.foldl .and cond

/-- The query that assembles one document by its key, with its parameters. -/
def documentQuery (key : RowKey GenericValue) :
    Except BuildError (DocumentQuery × List GenericValue) := do
  let build : Build DocumentQuery := do
    let object := objectOf (← pairsOf index.dbSchema pks colTypes index.fields .root
      index.primaryKey)
    let keyed ← key.mapM fun (column, value) => do
      let operand ← typedPlaceholder colTypes value index.table column
      return .compare .eq ⟨.root, column⟩ (.param operand)
    let deleted ← softDeletePredicate colTypes index
    let conditions := keyed ++ (deleted.map fun predicate => .not (.paren predicate)).toList
    let rootFilters ← filters colTypes index.filters .root index.table
    return ⟨none, object, (index.dbSchema, index.table), andAll (allOf conditions) rootFilters⟩
  let (query, builder) ← build.run ⟨[], 0⟩
  pure (query, builder.params)

/-- The query that assembles every document of a list of root keys. -/
def documentsQuery (pkColumn : ColumnName) (keys : List GenericValue) :
    Except BuildError (DocumentQuery × List GenericValue) := do
  let build : Build DocumentQuery := do
    let object := objectOf (← pairsOf index.dbSchema pks colTypes index.fields .root
      index.primaryKey)
    let operands ← keys.mapM fun value => typedPlaceholder colTypes value index.table pkColumn
    let keyed := .within false ⟨.root, pkColumn⟩ operands
    let deleted ← softDeletePredicate colTypes index
    let predicate := match deleted with
      | some predicate => .and keyed (.not (.paren predicate))
      | none => keyed
    let rootFilters ← filters colTypes index.filters .root index.table
    return ⟨some ⟨.root, pkColumn⟩, object, (index.dbSchema, index.table),
      andAll predicate rootFilters⟩
  let (query, builder) ← build.run ⟨[], 0⟩
  pure (query, builder.params)

end Entry

end Flusso.Document
