import Flusso.Sql.Pieces
import Flusso.Sql.Rules

/-! # Queries in pieces

The text of a query that builds JSON, put together from pieces. Whatever the
query, its fixed pieces keep the others apart, and its parentheses match.
-/

namespace Sql

variable {α κ τ : Type}

/-- The identifiers that names are spelled with. -/
structure Spelling (α κ τ : Type) where
  row : α → String
  column : κ → String
  table : τ → List String

/-- Names are their identifiers in quotes. -/
structure Names.Spells (names : Names α κ τ) (spelling : Spelling α κ τ) : Prop where
  row : ∀ a, names.row a = quotedIdentifier (spelling.row a)
  column : ∀ c, names.column c = quotedIdentifier (spelling.column c)
  table : ∀ t, names.table t = ".".intercalate ((spelling.table t).map quotedIdentifier)

section Pieces

def comma : Piece κ := .fixed ", " [.symbol ',']

def close : Piece κ := .fixed ")" [.symbol ')']

def Comparison.token : Comparison → Token
  | eq => .operator "="
  | ne => .operator "<>"
  | lt => .operator "<"
  | le => .operator "<="
  | gt => .operator ">"
  | ge => .operator ">="
  | like => .word "LIKE"
  | ilike => .word "ILIKE"

def Comparison.piece (op : Comparison) : Piece κ := .fixed (" " ++ op.text ++ " ") [op.token]

variable (spelling : Spelling α κ τ)

def Spelling.rowPiece (a : α) : Piece κ := .name [spelling.row a]

def Spelling.tablePiece (t : τ) : Piece κ := .name (spelling.table t)

def Col.piece (c : Col α κ) : Piece κ := .name [spelling.row c.row, spelling.column c.column]

def Operand.piece (column : κ) : Operand α κ → Piece κ
  | .column c => c.piece spelling
  | .param p => .param column p

def Cond.pieces : Cond α κ τ → List (Piece κ)
  | .always => [.fixed "true" [.word "true"]]
  | .compare op c operand => [c.piece spelling, op.piece, operand.piece spelling c.column]
  | .within negated c params =>
    c.piece spelling ::
      (if negated then .fixed " NOT IN (" [.word "NOT", .word "IN", .symbol '(']
        else .fixed " IN (" [.word "IN", .symbol '(']) ::
      (joined comma (params.map fun p => [.param c.column p]) ++ [close])
  | .between c lower upper =>
    [c.piece spelling, .fixed " BETWEEN " [.word "BETWEEN"], .param c.column lower,
      .fixed " AND " [.word "AND"], .param c.column upper]
  | .isNull negated c =>
    [c.piece spelling,
      if negated then .fixed " IS NOT NULL" [.word "IS", .word "NOT", .word "NULL"]
        else .fixed " IS NULL" [.word "IS", .word "NULL"]]
  | .marked c =>
    let marker := c.piece spelling
    [.fixed "CASE WHEN " [.word "CASE", .word "WHEN"], marker,
      .fixed " IS NULL THEN false WHEN pg_typeof("
        [.word "IS", .word "NULL", .word "THEN", .word "false", .word "WHEN", .word "pg_typeof",
          .symbol '('],
      marker,
      .fixed ") = 'boolean'::regtype THEN "
        [.symbol ')', .operator "=", .literal "boolean", .cast, .word "regtype", .word "THEN"],
      marker,
      .fixed "::text::boolean ELSE true END"
        [.cast, .word "text", .cast, .word "boolean", .word "ELSE", .word "true", .word "END"]]
  | .raw text => [.raw text]
  | .inSelect c selected table row cond =>
    c.piece spelling :: .fixed " IN (SELECT " [.word "IN", .symbol '(', .word "SELECT"] ::
      selected.piece spelling :: .fixed " FROM " [.word "FROM"] :: spelling.tablePiece table ::
      .fixed " AS " [.word "AS"] :: spelling.rowPiece row :: .fixed " WHERE " [.word "WHERE"] ::
      (cond.pieces ++ [close])
  | .and a b => a.pieces ++ .fixed " AND " [.word "AND"] :: b.pieces
  | .paren a => .fixed "(" [.symbol '('] :: (a.pieces ++ [close])
  | .not a => .fixed "NOT " [.word "NOT"] :: a.pieces

def From.pieces : From α κ τ → List (Piece κ)
  | .table t row => [spelling.tablePiece t, .fixed " AS " [.word "AS"], spelling.rowPiece row]
  | .joined t row other otherRow left right =>
    [spelling.tablePiece t, .fixed " AS " [.word "AS"], spelling.rowPiece row,
      .fixed " JOIN " [.word "JOIN"], spelling.tablePiece other, .fixed " AS " [.word "AS"],
      spelling.rowPiece otherRow, .fixed " ON " [.word "ON"], left.piece spelling,
      .fixed " = " [.operator "="], right.piece spelling]

def Order.pieces (o : Order α κ) : List (Piece κ) :=
  [o.column.piece spelling,
    if o.descending then .fixed " DESC" [.word "DESC"] else .fixed " ASC" [.word "ASC"]]

/-- The order of a subquery before what follows it. -/
def orderPieces (order : List (Order α κ)) (rest : List (Piece κ)) : List (Piece κ) :=
  if order.isEmpty then rest
  else .fixed " ORDER BY " [.word "ORDER", .word "BY"] ::
    (joined comma (order.map (Order.pieces spelling)) ++ rest)

def limitPieces : Option ℕ → List (Piece κ)
  | some n => [.fixed " LIMIT " [.word "LIMIT"], .number n]
  | none => []

def Select.pieces (s : Select α κ τ) : List (Piece κ) :=
  .fixed "SELECT " [.word "SELECT"] :: .columns (spelling.row s.row) ::
    .fixed " FROM " [.word "FROM"] :: (s.source.pieces spelling ++
      .fixed " WHERE " [.word "WHERE"] :: (s.cond.pieces spelling ++
        orderPieces spelling s.order (limitPieces s.limit)))

def Scalar.pieces : Scalar α κ → List (Piece κ)
  | .column c => [c.piece spelling]
  | .lower s => .fixed "lower(" [.word "lower", .symbol '('] :: (s.pieces ++ [close])
  | .trim s => .fixed "trim(" [.word "trim", .symbol '('] :: (s.pieces ++ [close])
  | .coalesce s literal =>
    .fixed "coalesce(" [.word "coalesce", .symbol '('] ::
      (s.pieces ++ [comma, .literal literal, close])

def Fold.pieces : Fold α κ → List (Piece κ)
  | .count => [.fixed "count(*)" [.word "count", .symbol '(', .operator "*", .symbol ')']]
  | .sum c => [.fixed "sum(" [.word "sum", .symbol '('], c.piece spelling, close]
  | .avg c => [.fixed "avg(" [.word "avg", .symbol '('], c.piece spelling, close]
  | .min c => [.fixed "min(" [.word "min", .symbol '('], c.piece spelling, close]
  | .max c => [.fixed "max(" [.word "max", .symbol '('], c.piece spelling, close]
  | .collect c =>
    [.fixed "coalesce(json_agg(" [.word "coalesce", .symbol '(', .word "json_agg", .symbol '('],
      c.piece spelling,
      .fixed "), '[]'::json)"
        [.symbol ')', .symbol ',', .literal "[]", .cast, .word "json", .symbol ')']]
  | .null => [.fixed "null" [.word "null"]]

/-- One call that builds an object. -/
def objectCall (function : String) (pairs : List (List (Piece κ))) : List (Piece κ) :=
  .fixed (function ++ "(") [.word function, .symbol '('] :: (joined comma pairs ++ [close])

mutual

def Expr.pieces : Expr α κ τ → List (Piece κ)
  | .scalar s => s.pieces spelling
  | .literal text => [.literal text]
  | .null => [.fixed "null" [.word "null"]]
  | .unlessNull first second e =>
    .fixed "CASE WHEN " [.word "CASE", .word "WHEN"] :: first.piece spelling ::
      .fixed " IS NULL OR " [.word "IS", .word "NULL", .word "OR"] :: second.piece spelling ::
      .fixed " IS NULL THEN NULL ELSE "
        [.word "IS", .word "NULL", .word "THEN", .word "NULL", .word "ELSE"] ::
      (e.pieces ++ [.fixed " END" [.word "END"]])
  | .object pairs => objectCall "json_build_object" (pairPieces pairs)
  | .merged size pairs =>
    .fixed "(" [.symbol '('] ::
      (joined (.fixed " || " [.operator "||"])
        (((pairPieces pairs).toChunks size).map (objectCall "jsonb_build_object")) ++ [close])
  | .first e source cond order =>
    .fixed "(SELECT " [.symbol '(', .word "SELECT"] :: (e.pieces ++
      .fixed " FROM " [.word "FROM"] :: (source.pieces spelling ++
        .fixed " WHERE " [.word "WHERE"] :: (cond.pieces spelling ++ orderPieces spelling order
          [.fixed " LIMIT 1)" [.word "LIMIT", .number "1", .symbol ')']])))
  | .fold fold source cond =>
    .fixed "(SELECT " [.symbol '(', .word "SELECT"] :: (fold.pieces spelling ++
      .fixed " FROM " [.word "FROM"] :: (source.pieces spelling ++
        .fixed " WHERE " [.word "WHERE"] :: (cond.pieces spelling ++ [close])))
  | .array e rows derived order =>
    .fixed "(SELECT coalesce(json_agg("
        [.symbol '(', .word "SELECT", .word "coalesce", .symbol '(', .word "json_agg",
          .symbol '('] :: (e.pieces ++ orderPieces spelling order
      (.fixed "), '[]'::json) FROM ("
          [.symbol ')', .symbol ',', .literal "[]", .cast, .word "json", .symbol ')',
            .word "FROM", .symbol '('] :: (rows.pieces spelling ++
        [.fixed ") AS " [.symbol ')', .word "AS"], spelling.rowPiece derived, close])))

def pairPieces : List (String × Expr α κ τ) → List (List (Piece κ))
  | [] => []
  | (key, e) :: pairs => (.literal key :: comma :: e.pieces) :: pairPieces pairs

end

end Pieces

section Text

variable {names : Names α κ τ} {spelling : Spelling α κ τ}

@[simp] theorem textOf_nil : textOf ([] : List (Piece κ)) = "" := rfl

@[simp] theorem textOf_cons (p : Piece κ) (ps : List (Piece κ)) :
    textOf (p :: ps) = p.text ++ textOf ps := rfl

@[simp] theorem text_comma : (comma : Piece κ).text = ", " := rfl

@[simp] theorem text_close : (close : Piece κ).text = ")" := rfl

@[simp] theorem text_comparison (op : Comparison) :
    (op.piece : Piece κ).text = " " ++ op.text ++ " " := rfl

variable (h : names.Spells spelling)

include h

theorem Names.Spells.text_col (c : Col α κ) : (c.piece spelling).text = c.text names := by
  simp [Col.piece, Piece.text, Col.text, h.row, h.column, String.append_assoc]

theorem Names.Spells.text_row (a : α) : (spelling.rowPiece a).text = names.row a := by
  simp [Spelling.rowPiece, Piece.text, h.row]

theorem Names.Spells.text_table (t : τ) : (spelling.tablePiece t).text = names.table t :=
  (h.table t).symm

theorem Cond.textOf_pieces (cond : Cond α κ τ) :
    textOf (cond.pieces spelling) = cond.text names := by
  induction cond with
  | always => rfl
  | compare op c operand =>
    cases operand <;> simp [Cond.pieces, Cond.text, Operand.piece, Operand.text, h.text_col,
      String.append_assoc]
  | within negated c params =>
    cases negated <;> simp [Cond.pieces, Cond.text, h.text_col, String.append_assoc,
      textOf_append, textOf_joined, Function.comp_def]
  | between c lower upper => simp [Cond.pieces, Cond.text, h.text_col, String.append_assoc]
  | isNull negated c => cases negated <;> simp [Cond.pieces, Cond.text, h.text_col]
  | marked c => simp [Cond.pieces, Cond.text, h.text_col, String.append_assoc]
  | raw text => simp [Cond.pieces, Cond.text]
  | inSelect c selected table row cond ih =>
    simp [Cond.pieces, Cond.text, h.text_col, h.text_row, h.text_table, String.append_assoc,
      textOf_append, ih]
  | and a b iha ihb =>
    simp [Cond.pieces, Cond.text, String.append_assoc, textOf_append, iha, ihb]
  | paren a ih => simp [Cond.pieces, Cond.text, String.append_assoc, textOf_append, ih]
  | not a ih => simp [Cond.pieces, Cond.text, ih]

theorem From.textOf_pieces (source : From α κ τ) :
    textOf (source.pieces spelling) = source.text names := by
  cases source <;> simp [From.pieces, From.text, h.text_col, h.text_row, h.text_table,
    String.append_assoc]

theorem textOf_orderPieces (order : List (Order α κ)) (rest : List (Piece κ)) :
    textOf (orderPieces spelling order rest) = orderText names order ++ textOf rest := by
  have hpart (o : Order α κ) : textOf (o.pieces spelling) =
      o.column.text names ++ (if o.descending then " DESC" else " ASC") := by
    cases hdesc : o.descending <;> simp [Order.pieces, hdesc, h.text_col]
  unfold orderPieces orderText
  split
  · simp
  · simp [textOf_append, textOf_joined, Function.comp_def, hpart, String.append_assoc]

theorem Select.textOf_pieces (s : Select α κ τ) :
    textOf (s.pieces spelling) = s.text names := by
  have hstar (rest : String) : ".*" ++ (" FROM " ++ rest) = ".* FROM " ++ rest := by
    rw [← String.append_assoc]
    rfl
  cases hlimit : s.limit <;> simp [Select.pieces, Select.text, hlimit, limitPieces, hstar,
    textOf_append, textOf_orderPieces h, From.textOf_pieces h, Cond.textOf_pieces h, h.row,
    String.append_assoc]

theorem Scalar.textOf_pieces (s : Scalar α κ) :
    textOf (s.pieces spelling) = s.text names := by
  induction s with
  | column c => simp [Scalar.pieces, Scalar.text, h.text_col]
  | lower s ih => simp [Scalar.pieces, Scalar.text, textOf_append, ih, String.append_assoc]
  | trim s ih => simp [Scalar.pieces, Scalar.text, textOf_append, ih, String.append_assoc]
  | coalesce s literal ih =>
    simp [Scalar.pieces, Scalar.text, textOf_append, ih, String.append_assoc]

theorem Fold.textOf_pieces (fold : Fold α κ) :
    textOf (fold.pieces spelling) = fold.text names := by
  have hcall (function : String) (c : Col α κ) :
      textOf [.fixed function [], c.piece spelling, close] = function ++ c.text names ++ ")" := by
    simp [h.text_col, String.append_assoc]
  cases fold with
  | count => rfl
  | sum c => exact hcall "sum(" c
  | avg c => exact hcall "avg(" c
  | min c => exact hcall "min(" c
  | max c => exact hcall "max(" c
  | collect c =>
    have hcollect : Fold.text names (.collect c) =
      "coalesce(json_agg(" ++ c.text names ++ "), '[]'::json)" := rfl
    simp [Fold.pieces, hcollect, h.text_col, String.append_assoc]
  | null => rfl

omit h in
theorem textOf_objectCall (function : String) (pairs : List (List (Piece κ))) :
    textOf (objectCall function pairs) =
      function ++ "(" ++ ", ".intercalate (pairs.map textOf) ++ ")" := by
  simp [objectCall, textOf_append, textOf_joined, String.append_assoc]

omit h in
theorem map_toChunks {β γ : Type} (f : β → γ) (n : ℕ) (l : List β) :
    (l.map f).toChunks n = (l.toChunks n).map (List.map f) := by
  have hgo : ∀ (m : ℕ) (l : List β) (acc : Array β) (chunks : Array (List β)),
      List.toChunks.go m (l.map f) (acc.map f) (chunks.map (List.map f)) =
        (List.toChunks.go m l acc chunks).map (List.map f) := by
    intro m l
    induction l with
    | nil => intro acc chunks; simp [List.toChunks.go]
    | cons b l ih =>
      intro acc chunks
      rw [List.map_cons, List.toChunks.go, List.toChunks.go, Array.size_map]
      split
      · rw [← ih]; simp
      · rw [← ih]; simp
  cases l with
  | nil => cases n <;> rfl
  | cons b l =>
    cases n with
    | zero => simp [List.toChunks]
    | succ n => simpa [List.toChunks] using hgo (n + 1) l #[b] #[]

end Text

section Nodes

variable {names : Names α κ τ} {spelling : Spelling α κ τ}

theorem Expr.text_unlessNull (first second : Col α κ) (e : Expr α κ τ) :
    Expr.text names (.unlessNull first second e) =
      "CASE WHEN " ++ first.text names ++ " IS NULL OR " ++ second.text names ++
        " IS NULL THEN NULL ELSE " ++ e.text names ++ " END" := rfl

theorem Expr.text_merged (size : ℕ) (pairs : List (String × Expr α κ τ)) :
    Expr.text names (.merged size pairs) =
      "(" ++ " || ".intercalate (((pairTexts names pairs).toChunks size).map fun chunk =>
        "jsonb_build_object(" ++ ", ".intercalate chunk ++ ")") ++ ")" := rfl

theorem Expr.text_first (e : Expr α κ τ) (source : From α κ τ) (cond : Cond α κ τ)
    (order : List (Order α κ)) :
    Expr.text names (.first e source cond order) =
      "(SELECT " ++ e.text names ++ " FROM " ++ source.text names ++ " WHERE " ++
        cond.text names ++ orderText names order ++ " LIMIT 1)" := rfl

theorem Expr.text_fold (fold : Fold α κ) (source : From α κ τ) (cond : Cond α κ τ) :
    Expr.text names (.fold fold source cond) =
      "(SELECT " ++ fold.text names ++ " FROM " ++ source.text names ++ " WHERE " ++
        cond.text names ++ ")" := rfl

theorem Expr.text_array (e : Expr α κ τ) (rows : Select α κ τ) (derived : α)
    (order : List (Order α κ)) :
    Expr.text names (.array e rows derived order) =
      "(SELECT coalesce(json_agg(" ++ e.text names ++ orderText names order ++
        "), '[]'::json) FROM (" ++ rows.text names ++ ") AS " ++ names.row derived ++ ")" := rfl

mutual

theorem Expr.textOf_pieces (h : names.Spells spelling) :
    (e : Expr α κ τ) → textOf (e.pieces spelling) = e.text names
  | .scalar s => s.textOf_pieces h
  | .literal text => String.append_empty
  | .null => rfl
  | .unlessNull first second e => by
    simp [Expr.pieces, Expr.text_unlessNull, h.text_col, textOf_append, e.textOf_pieces h,
      String.append_assoc]
  | .object pairs => by
    rw [Expr.pieces, textOf_objectCall, textOf_pairPieces h pairs]
    rfl
  | .merged size pairs => by
    have hcall : textOf ∘ objectCall (κ := κ) "jsonb_build_object" = fun part =>
        "jsonb_build_object(" ++ ", ".intercalate (part.map textOf) ++ ")" :=
      funext fun part => textOf_objectCall "jsonb_build_object" part
    simp [Expr.pieces, Expr.text_merged, textOf_append, textOf_joined, hcall,
      ← textOf_pairPieces h pairs, map_toChunks, Function.comp_def, String.append_assoc]
  | .first e source cond order => by
    simp [Expr.pieces, Expr.text_first, textOf_append, e.textOf_pieces h, source.textOf_pieces h,
      cond.textOf_pieces h, textOf_orderPieces h, String.append_assoc]
  | .fold fold source cond => by
    simp [Expr.pieces, Expr.text_fold, textOf_append, fold.textOf_pieces h, source.textOf_pieces h,
      cond.textOf_pieces h, String.append_assoc]
  | .array e rows derived order => by
    simp [Expr.pieces, Expr.text_array, textOf_append, e.textOf_pieces h, rows.textOf_pieces h,
      textOf_orderPieces h, h.text_row, String.append_assoc]

theorem textOf_pairPieces (h : names.Spells spelling) : (pairs : List (String × Expr α κ τ)) →
    (pairPieces spelling pairs).map textOf = pairTexts names pairs
  | [] => rfl
  | (key, e) :: pairs => by
    have hcons : pairTexts names ((key, e) :: pairs) =
      (quoted key ++ ", " ++ e.text names) :: pairTexts names pairs := rfl
    simp [pairPieces, hcons, textOf_pairPieces h pairs, e.textOf_pieces h, String.append_assoc]

end

end Nodes

end Sql
