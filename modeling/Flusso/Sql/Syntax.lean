import Mathlib.Data.List.Basic

/-! # Queries that build JSON

The fragment of SQL that assembles a JSON value from a row: columns and literals,
objects, and correlated subqueries over one table or a join of two. Names of
aliases, columns and tables are parameters.
-/

namespace Sql

variable (α κ τ : Type)

structure Col where
  row : α
  column : κ

/-- A bound parameter, cast to a type. -/
structure Param where
  index : ℕ
  sqlType : String

inductive Comparison where
  | eq
  | ne
  | lt
  | le
  | gt
  | ge
  | like
  | ilike
  deriving DecidableEq

inductive Operand where
  | column (c : Col α κ)
  | param (p : Param)

inductive Cond where
  | always
  | compare (op : Comparison) (c : Col α κ) (operand : Operand α κ)
  | within (negated : Bool) (c : Col α κ) (params : List Param)
  | between (c : Col α κ) (lower upper : Param)
  | isNull (negated : Bool) (c : Col α κ)
  /-- A column that is not null, and true where it is a boolean. -/
  | marked (c : Col α κ)
  | raw (text : String)
  /-- `c IN (SELECT selected FROM table AS alias WHERE cond)`. -/
  | inSelect (c selected : Col α κ) (table : τ) (row : α) (cond : Cond)
  | and (a b : Cond)
  | paren (a : Cond)
  | not (a : Cond)

inductive From where
  | table (table : τ) (row : α)
  | joined (table : τ) (row : α) (other : τ) (otherRow : α) (left right : Col α κ)

structure Order where
  column : Col α κ
  descending : Bool

/-- The rows of one alias that a subquery hands on. -/
structure Select where
  row : α
  source : From α κ τ
  cond : Cond α κ τ
  order : List (Order α κ)
  limit : Option ℕ

inductive Scalar where
  | column (c : Col α κ)
  | lower (s : Scalar)
  | trim (s : Scalar)
  | coalesce (s : Scalar) (literal : String)

inductive Fold where
  | count
  | sum (c : Col α κ)
  | avg (c : Col α κ)
  | min (c : Col α κ)
  | max (c : Col α κ)
  /-- The column's values as an array. -/
  | collect (c : Col α κ)
  | null

inductive Expr where
  | scalar (s : Scalar α κ)
  | literal (text : String)
  | null
  | unlessNull (first second : Col α κ) (e : Expr)
  | object (pairs : List (String × Expr))
  /-- Objects of so many pairs each, laid over one another. -/
  | merged (size : ℕ) (pairs : List (String × Expr))
  /-- The expression at the first row. -/
  | first (e : Expr) (source : From α κ τ) (cond : Cond α κ τ) (order : List (Order α κ))
  | fold (fold : Fold α κ) (source : From α κ τ) (cond : Cond α κ τ)
  /-- The expression at every row of a derived table. -/
  | array (e : Expr) (rows : Select α κ τ) (derived : α) (order : List (Order α κ))

/-- How names are written. -/
structure Names where
  row : α → String
  column : κ → String
  table : τ → String

section Text

variable {α κ τ} (names : Names α κ τ)

/-- A string literal, its quotes doubled. -/
def quoted (text : String) : String :=
  "'" ++ String.ofList (text.toList.flatMap fun c => if c = '\'' then ['\'', '\''] else [c]) ++ "'"

def Col.text (c : Col α κ) : String := names.row c.row ++ "." ++ names.column c.column

def Param.text (p : Param) : String := "$" ++ toString p.index ++ "::" ++ p.sqlType

def Comparison.text : Comparison → String
  | eq => "="
  | ne => "<>"
  | lt => "<"
  | le => "<="
  | gt => ">"
  | ge => ">="
  | like => "LIKE"
  | ilike => "ILIKE"

def Operand.text : Operand α κ → String
  | .column c => c.text names
  | .param p => p.text

def Cond.text : Cond α κ τ → String
  | .always => "true"
  | .compare op c operand => c.text names ++ " " ++ op.text ++ " " ++ operand.text names
  | .within negated c params =>
    c.text names ++ (if negated then " NOT IN (" else " IN (") ++
      ", ".intercalate (params.map Param.text) ++ ")"
  | .between c lower upper =>
    c.text names ++ " BETWEEN " ++ lower.text ++ " AND " ++ upper.text
  | .isNull negated c => c.text names ++ (if negated then " IS NOT NULL" else " IS NULL")
  | .marked c =>
    let marker := c.text names
    "CASE WHEN " ++ marker ++ " IS NULL THEN false WHEN pg_typeof(" ++ marker ++
      ") = 'boolean'::regtype THEN " ++ marker ++ "::text::boolean ELSE true END"
  | .raw text => text
  | .inSelect c selected table row cond =>
    c.text names ++ " IN (SELECT " ++ selected.text names ++ " FROM " ++ names.table table ++
      " AS " ++ names.row row ++ " WHERE " ++ cond.text ++ ")"
  | .and a b => a.text ++ " AND " ++ b.text
  | .paren a => "(" ++ a.text ++ ")"
  | .not a => "NOT " ++ a.text

def From.text (source : From α κ τ) : String :=
  match source with
  | .table t row => names.table t ++ " AS " ++ names.row row
  | .joined t row other otherRow left right =>
    names.table t ++ " AS " ++ names.row row ++ " JOIN " ++ names.table other ++ " AS " ++
      names.row otherRow ++ " ON " ++ left.text names ++ " = " ++ right.text names

def orderText (order : List (Order α κ)) : String :=
  if order.isEmpty then ""
  else " ORDER BY " ++ ", ".intercalate (order.map fun o =>
    o.column.text names ++ (if o.descending then " DESC" else " ASC"))

def Select.text (s : Select α κ τ) : String :=
  "SELECT " ++ names.row s.row ++ ".* FROM " ++ s.source.text names ++ " WHERE " ++
    s.cond.text names ++ orderText names s.order ++
    (match s.limit with | some n => " LIMIT " ++ toString n | none => "")

def Scalar.text : Scalar α κ → String
  | .column c => c.text names
  | .lower s => "lower(" ++ s.text ++ ")"
  | .trim s => "trim(" ++ s.text ++ ")"
  | .coalesce s literal => "coalesce(" ++ s.text ++ ", " ++ quoted literal ++ ")"

def Fold.text : Fold α κ → String
  | .count => "count(*)"
  | .sum c => "sum(" ++ c.text names ++ ")"
  | .avg c => "avg(" ++ c.text names ++ ")"
  | .min c => "min(" ++ c.text names ++ ")"
  | .max c => "max(" ++ c.text names ++ ")"
  | .collect c => "coalesce(json_agg(" ++ c.text names ++ "), '[]'::json)"
  | .null => "null"

mutual

def Expr.text : Expr α κ τ → String
  | .scalar s => s.text names
  | .literal text => quoted text
  | .null => "null"
  | .unlessNull first second e =>
    "CASE WHEN " ++ first.text names ++ " IS NULL OR " ++ second.text names ++
      " IS NULL THEN NULL ELSE " ++ e.text ++ " END"
  | .object pairs => "json_build_object(" ++ ", ".intercalate (pairTexts pairs) ++ ")"
  | .merged size pairs =>
    "(" ++ " || ".intercalate (((pairTexts pairs).toChunks size).map fun chunk =>
      "jsonb_build_object(" ++ ", ".intercalate chunk ++ ")") ++ ")"
  | .first e source cond order =>
    "(SELECT " ++ e.text ++ " FROM " ++ source.text names ++ " WHERE " ++ cond.text names ++
      orderText names order ++ " LIMIT 1)"
  | .fold fold source cond =>
    "(SELECT " ++ fold.text names ++ " FROM " ++ source.text names ++ " WHERE " ++
      cond.text names ++ ")"
  | .array e rows derived order =>
    "(SELECT coalesce(json_agg(" ++ e.text ++ orderText names order ++
      "), '[]'::json) FROM (" ++ rows.text names ++ ") AS " ++ names.row derived ++ ")"

def pairTexts : List (String × Expr α κ τ) → List String
  | [] => []
  | (key, e) :: pairs => (quoted key ++ ", " ++ e.text) :: pairTexts pairs

end

end Text

end Sql
