import Flusso.Sql.Semantics

/-! # Statements the server accepts

A statement is analysed before any row is read. It is refused where a table or a
column is unknown, a list of operands is empty, a type has not the operator, the
function or the order that is asked of it, or a literal does not read as its type.
-/

namespace Sql

variable {α κ τ S : Type} [DecidableEq α]

def Typing.bind (typing : Typing α τ) (row : α) (t : τ) : Typing α τ :=
  Function.update typing row (some t)

namespace Typing

variable {typing : Typing α τ} {a a' a'' : α} {t u w : τ}

@[simp] theorem bind_self : typing.bind a t a = some t := Function.update_self ..

theorem bind_of_ne (h : a ≠ a') : typing.bind a' t a = typing a := Function.update_of_ne h ..

theorem bind_bind (hne : a ≠ a') (hother : a'' ≠ a) (hother' : a'' ≠ a')
    (h : typing a'' = some w) :
    (typing.bind a t).bind a' u a = some t ∧ (typing.bind a t).bind a' u a' = some u ∧
      (typing.bind a t).bind a' u a'' = some w :=
  ⟨(bind_of_ne hne).trans bind_self, bind_self,
    (bind_of_ne hother').trans ((bind_of_ne hother).trans h)⟩

end Typing

variable [Values S] (session : Session α κ τ S)

variable (S) in
/-- Whether two types compare; no type compares with one that is unknown. -/
def comparable (op : Comparison) : Option String → Option String → Bool
  | some a, some b => Values.operator S op a b
  | _, _ => false

def Operand.sqlType (typing : Typing α τ) : Operand α κ → Option String
  | .column c => c.sqlType session typing
  | .param p => some p.sqlType

def hasTable (t : τ) : Bool := (session.rows t).isSome

def Cond.accepted (typing : Typing α τ) : Cond α κ τ → Bool
  | .always => true
  | .compare op c operand =>
    comparable S op (c.sqlType session typing) (operand.sqlType session typing)
  | .within negated c params =>
    !params.isEmpty && params.all fun p =>
      comparable S (if negated then .ne else .eq) (c.sqlType session typing) (some p.sqlType)
  | .between c lower upper =>
    comparable S .ge (c.sqlType session typing) (some lower.sqlType) &&
      comparable S .le (c.sqlType session typing) (some upper.sqlType)
  | .isNull _ c | .marked c => (c.sqlType session typing).isSome
  | .raw text => (session.raw text).isSome
  | .inSelect c selected table row cond =>
    let inner := typing.bind row table
    hasTable session table &&
      comparable S .eq (c.sqlType session typing) (selected.sqlType session inner) &&
      cond.accepted inner
  | .and a b => a.accepted typing && b.accepted typing
  | .paren a | .not a => a.accepted typing

/-- The tables in scope under a source. -/
def From.typing (typing : Typing α τ) : From α κ τ → Typing α τ
  | .table t row => typing.bind row t
  | .joined t row other otherRow _ _ => (typing.bind row t).bind otherRow other

def From.accepted (typing : Typing α τ) (source : From α κ τ) : Bool :=
  match source with
  | .table t _ => hasTable session t
  | .joined t _ other _ left right =>
    hasTable session t && hasTable session other &&
      comparable S .eq (left.sqlType session (source.typing typing))
        (right.sqlType session (source.typing typing))

def orderAccepted (typing : Typing α τ) (order : List (Order α κ)) : Bool :=
  order.all fun o => (o.column.sqlType session typing).any (Values.sorts S)

def Select.accepted (typing : Typing α τ) (s : Select α κ τ) : Bool :=
  let inner := s.source.typing typing
  s.source.accepted session typing && s.cond.accepted session inner &&
    orderAccepted session inner s.order

def Scalar.accepted (typing : Typing α τ) : Scalar α κ → Bool
  | .column c => (c.sqlType session typing).isSome
  | .lower s => s.accepted typing && (s.sqlType session typing).any (Values.function S .lower)
  | .trim s => s.accepted typing && (s.sqlType session typing).any (Values.function S .trim)
  | .coalesce s literal =>
    s.accepted typing && (s.sqlType session typing).any (Values.reads S · literal)

def Fold.accepted (typing : Typing α τ) : Fold α κ → Bool
  | .count | .null => true
  | .sum c => (c.sqlType session typing).any (Values.function S .sum)
  | .avg c => (c.sqlType session typing).any (Values.function S .avg)
  | .min c => (c.sqlType session typing).any (Values.function S .min)
  | .max c => (c.sqlType session typing).any (Values.function S .max)
  | .collect c => (c.sqlType session typing).isSome

mutual

def Expr.accepted : Expr α κ τ → Typing α τ → Bool
  | .scalar s, typing => s.accepted session typing
  | .literal _, _ | .null, _ => true
  | .unlessNull first second e, typing =>
    (first.sqlType session typing).isSome && (second.sqlType session typing).isSome &&
      e.accepted typing
  | .object pairs, typing | .merged _ pairs, typing => pairsAccepted pairs typing
  | .first e source cond order, typing =>
    let inner := source.typing typing
    source.accepted session typing && cond.accepted session inner &&
      orderAccepted session inner order && e.accepted inner
  | .fold fold source cond, typing =>
    let inner := source.typing typing
    source.accepted session typing && cond.accepted session inner && fold.accepted session inner
  | .array e rows derived order, typing =>
    -- The derived table has the columns of the row it hands on.
    let inner := Function.update typing derived (rows.source.typing typing rows.row)
    rows.accepted session typing && orderAccepted session inner order && e.accepted inner

def pairsAccepted : List (String × Expr α κ τ) → Typing α τ → Bool
  | [], _ => true
  | (_, e) :: pairs, typing => e.accepted typing && pairsAccepted pairs typing

end

end Sql
