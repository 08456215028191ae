import Flusso.Document.Database
import Flusso.Document.Query
import Flusso.Sql.Semantics

/-! # The contents of a document

What a field tree says a row's document holds, read directly off the database:
each field by its own rule, each relation by its related rows.
-/

namespace Flusso.Document

section Rows

variable {S : Type} [Postgres S] [Sql.Values S] (db : Database S) (schema : DatabaseSchema)

/-- The type of a column, where there is one. -/
def storedType (table : TableName) (column : ColumnName) : Option String :=
  (db schema table).bind fun t => t.sqlType column

def typeName (table : TableName) (column : ColumnName) : String :=
  (storedType db schema table column).getD ""

def keyColumn (table : TableName) : Option ColumnName := (tablePrimaryKey db schema table).toOption

def areEqual (a b : S) : Bool := Sql.Values.compare .eq a b = some true

/-- A filter operand as a value of its column. -/
def operandOf (table : TableName) (column : ColumnName) (value : String) : Option S :=
  Postgres.cast (typeName db schema table column) (.string value)

def satisfies (op : Sql.Comparison) (a : S) (operand : Option S) : Bool :=
  operand.any fun b => Sql.Values.compare op a b = some true

def refutes (op : Sql.Comparison) (a : S) (operand : Option S) : Bool :=
  operand.any fun b => Sql.Values.compare op a b = some false

/-- Whether a row passes a filter. It is not asked of raw filters, whose text the statement holds. -/
def passes (table : TableName) (row : Row S) : Filter → Bool
  | .raw _ => true
  | .nullCheck column .isNull => Sql.Values.isNull (row column)
  | .nullCheck column .isNotNull => !Sql.Values.isNull (row column)
  | .valueOp column op value =>
    let operand := operandOf db schema table column
    match op, value with
    | .isIn, .list values => values.any fun v => satisfies .eq (row column) (operand v)
    | .notIn, .list values => values.all fun v => refutes .eq (row column) (operand v)
    | .between, .range lower upper =>
      satisfies .ge (row column) (operand lower) && satisfies .le (row column) (operand upper)
    | op, .single v => (comparison op).any fun compared =>
      satisfies compared (row column) (operand v)
    | _, _ => false

/-- Whether a row fails a filter outright; on a null most filters neither pass nor fail. -/
def fails (table : TableName) (row : Row S) : Filter → Bool
  | .raw _ => false
  | .nullCheck column .isNull => !Sql.Values.isNull (row column)
  | .nullCheck column .isNotNull => Sql.Values.isNull (row column)
  | .valueOp column op value =>
    let operand := operandOf db schema table column
    match op, value with
    | .isIn, .list values => values.all fun v => refutes .eq (row column) (operand v)
    | .notIn, .list values => values.any fun v => satisfies .eq (row column) (operand v)
    | .between, .range lower upper =>
      refutes .ge (row column) (operand lower) || refutes .le (row column) (operand upper)
    | op, .single v => (comparison op).any fun compared =>
      refutes compared (row column) (operand v)
    | _, _ => false

def passesAll (table : TableName) (fs : Option (List Filter)) (row : Row S) : Bool :=
  (fs.getD []).all (passes db schema table row)

def failsAny (table : TableName) (fs : Option (List Filter)) (row : Row S) : Bool :=
  (fs.getD []).any (fails db schema table row)

/-- The row order of an `order_by`. -/
def rowLe : List OrderBy → Row S → Row S → Bool
  | [], _, _ => true
  | o :: orderBy, r, r' =>
    let descending : Bool := o.direction = some .desc
    let a := r o.column
    let b := r' o.column
    let before := if descending then Sql.Values.le b a else Sql.Values.le a b
    let after := if descending then Sql.Values.le a b else Sql.Values.le b a
    if before && after then rowLe orderBy r r' else before

def ordered (orderBy : Option (List OrderBy)) (rows : List (Row S)) : List (Row S) :=
  rows.mergeSort (rowLe (orderBy.getD []))

/-- The rows of a far table linked to a parent, once for each junction row that links them. -/
def linkedThrough (through : Through) (far : TableName) (fs : Option (List Filter))
    (farPk parentPk : ColumnName) (parent : Row S) : List (Row S) :=
  (rowsOf db schema far).flatMap fun row =>
    ((rowsOf db schema through.table).filter fun junction =>
      areEqual (junction through.rightKey) (row farPk) &&
        (areEqual (junction through.leftKey) (parent parentPk) &&
          (passesAll db schema far fs row &&
            passesAll db schema through.table through.filters junction))).map fun _ => row

/-- The rows of a child table that name a parent. -/
def linkedDirectly (child : TableName) (foreignKey : ColumnName) (fs : Option (List Filter))
    (key : S) : List (Row S) :=
  (rowsOf db schema child).filter fun row =>
    areEqual (row foreignKey) key && passesAll db schema child fs row

/-- The related rows of a join, in its order and within its limit. -/
def joinRows (join : Join) (parent : Row S) (parentPk : Option ColumnName) : List (Row S) :=
  match join.kind with
  | .belongsTo column =>
    match keyColumn db schema join.table with
    | some pk => linkedDirectly db schema join.table pk join.filters (parent column)
    | none => []
  | .hasOne foreignKey =>
    match parentPk with
    | some pk => ordered join.orderBy
        (linkedDirectly db schema join.table foreignKey join.filters (parent pk))
    | none => []
  | .hasMany foreignKey =>
    match parentPk with
    | some pk => Sql.limited join.limit (ordered join.orderBy
        (linkedDirectly db schema join.table foreignKey join.filters (parent pk)))
    | none => []
  | .manyToMany through =>
    match keyColumn db schema join.table, parentPk with
    | some farPk, some pk => Sql.limited join.limit (ordered join.orderBy
        (linkedThrough db schema through join.table join.filters farPk pk parent))
    | _, _ => []

/-- The rows an aggregate folds. -/
def aggregateRows (aggregate : Aggregate) (parent : Row S) (parentPk : Option ColumnName) :
    List (Row S) :=
  match parentPk with
  | none => []
  | some pk =>
    match aggregate.key with
    | .direct foreignKey =>
      linkedDirectly db schema aggregate.table foreignKey aggregate.filters (parent pk)
    | .through through =>
      match keyColumn db schema aggregate.table with
      | none => []
      | some farPk =>
        if aggregate.distinct then
          (rowsOf db schema aggregate.table).filter fun row =>
            ((rowsOf db schema through.table).any fun junction =>
              areEqual (row farPk) (junction through.rightKey) &&
                (areEqual (junction through.leftKey) (parent pk) &&
                  passesAll db schema through.table through.filters junction)) &&
              passesAll db schema aggregate.table aggregate.filters row
        else
          linkedThrough db schema through aggregate.table aggregate.filters farPk pk parent

end Rows

section Fields

variable {S : Type} [Postgres S] [Sql.Values S] (db : Database S) (schema : DatabaseSchema)

def transformValue (v : S) : Transform → S
  | .lowercase => Sql.Values.lower v
  | .trim => Sql.Values.trim v

def transformed (transforms : List Transform) (v : S) : S := transforms.foldl transformValue v

/-- A column's value through its transforms, or its default. -/
def columnContents (column : Column) (table : TableName) (row : Row S) : S :=
  let v := transformed column.transforms (row column.column)
  match column.default.bind scalarLiteral with
  | some literal =>
    if Sql.Values.isNull v then
      Sql.Values.literal
        (if column.transforms = [] then typeName db schema table column.column else "text") literal
    else v
  | none => v

def geoContents (geo : Geo) (row : Row S) : Json :=
  if Sql.Values.isNull (row geo.lat) || Sql.Values.isNull (row geo.lon) then .null
  else .object (Json.ofPairs
    [("lat", Sql.Values.toJson (row geo.lat)), ("lon", Sql.Values.toJson (row geo.lon))])

/-- What an aggregate makes of its rows; `pk` is the primary key of their table. -/
def foldContents (op : AggregateOp) (pk : Option ColumnName) (rows : List (Row S)) : Json :=
  match op with
  | .count => .number (toString rows.length)
  | .sum column => Sql.Values.toJson (Sql.Values.sum (rows.map (· column)))
  | .avg column => Sql.Values.toJson (Sql.Values.avg (rows.map (· column)))
  | .min column => Sql.Values.toJson (Sql.Values.min (rows.map (· column)))
  | .max column => Sql.Values.toJson (Sql.Values.max (rows.map (· column)))
  | .ids _ =>
    match pk with
    | some pk => .array (rows.map fun row => Sql.Values.toJson (row pk))
    | none => .null

def aggregateContents (aggregate : Aggregate) (parent : Row S) (parentPk : Option ColumnName) :
    Json :=
  foldContents aggregate.op (keyColumn db schema aggregate.table)
    (aggregateRows db schema aggregate parent parentPk)

variable (constant : GenericValue → Json)

mutual

/-- A field's value in the document of a row, given how a constant reads. -/
def fieldContents : Field → TableName → Row S → Option ColumnName → Json
  | .column _ _ source, table, row, _ =>
    Sql.Values.toJson (columnContents db schema source table row)
  | .group _ _ fields, table, row, pk => .object (Json.ofPairs (pairContents fields table row pk))
  | .geo _ _ source, _, row, _ => geoContents source row
  | .constant _ _ value, _, _, _ => constant value
  | .aggregate _ _ source, _, row, pk => aggregateContents db schema source row pk
  | .join _ _ join fields, _, row, pk =>
    let related := joinRows db schema join row pk
    let document (r : Row S) : Json := .object
      (Json.ofPairs (pairContents fields join.table r (keyColumn db schema join.table)))
    if join.kind.isToMany then .array (related.map document)
    else related.head?.elim .null document

def pairContents : List Field → TableName → Row S → Option ColumnName → List (String × Json)
  | [], _, _, _ => []
  | field :: fields, table, row, pk =>
    (field.field.name, fieldContents field table row pk) :: pairContents fields table row pk

end

/-- The document of a row under a field list. -/
def documentContents (fields : List Field) (table : TableName) (row : Row S)
    (pk : Option ColumnName) : Json :=
  .object (Json.ofPairs (pairContents db schema constant fields table row pk))

end Fields

end Flusso.Document
