import Flusso.Foundation.Json
import Flusso.Sql.Syntax
import Mathlib.Logic.Function.Basic

/-! # Evaluating queries that build JSON

Truth is three-valued. An evaluation fails where a name is out of scope, a table
is unknown, a list of operands is empty, a parameter does not spell a value of the
type it is cast to, or text that is not parsed fails.
-/

namespace Sql

/-- The functions that take values of a type. -/
inductive Function where
  | lower
  | trim
  | sum
  | avg
  | min
  | max
  deriving DecidableEq

/-- Stored values and what expressions do with them, and what the types of values have. -/
class Values (S : Type) where
  /-- Whether there is an operator on values of two types. -/
  operator : Comparison → String → String → Bool
  /-- Whether a function takes values of a type. -/
  function : Function → String → Bool
  /-- Whether the values of a type can be sorted. -/
  sorts : String → Bool
  /-- Whether a literal of no type of its own reads as one of a type. -/
  reads : String → String → Bool
  isNull : S → Bool
  /-- A comparison; unknown on a null. -/
  compare : Comparison → S → S → Option Bool
  /-- The ascending order, nulls last. -/
  le : S → S → Bool
  /-- The value of a boolean, where it is one. -/
  boolean : S → Option Bool
  lower : S → S
  trim : S → S
  /-- A literal of no type of its own, read as one. -/
  literal : String → String → S
  /-- The value inside a JSON object or array. -/
  toJson : S → Json
  sum : List S → S
  avg : List S → S
  min : List S → S
  max : List S → S

/-- An order by which rows can be sorted. -/
class LawfulValues (S : Type) [Values S] : Prop where
  le_total : ∀ a b : S, Values.le a b = true ∨ Values.le b a = true
  le_trans : ∀ a b c : S, Values.le a b = true → Values.le b c = true → Values.le a c = true

section Truth

def conj : Option Bool → Option Bool → Option Bool
  | some false, _ | _, some false => some false
  | some true, some true => some true
  | _, _ => none

def disj : Option Bool → Option Bool → Option Bool
  | some true, _ | _, some true => some true
  | some false, some false => some false
  | _, _ => none

@[simp] theorem conj_eq_true {a b : Option Bool} :
    conj a b = some true ↔ a = some true ∧ b = some true := by
  rcases a with _ | _ | _ <;> rcases b with _ | _ | _ <;> simp [conj]

@[simp] theorem conj_eq_false {a b : Option Bool} :
    conj a b = some false ↔ a = some false ∨ b = some false := by
  rcases a with _ | _ | _ <;> rcases b with _ | _ | _ <;> simp [conj]

@[simp] theorem disj_eq_true {a b : Option Bool} :
    disj a b = some true ↔ a = some true ∨ b = some true := by
  rcases a with _ | _ | _ <;> rcases b with _ | _ | _ <;> simp [disj]

@[simp] theorem disj_eq_false {a b : Option Bool} :
    disj a b = some false ↔ a = some false ∧ b = some false := by
  rcases a with _ | _ | _ <;> rcases b with _ | _ | _ <;> simp [disj]

theorem map_not_eq_true {a : Option Bool} : a.map Bool.not = some true ↔ a = some false := by
  rcases a with _ | _ | _ <;> simp

theorem map_not_eq_false {a : Option Bool} : a.map Bool.not = some false ↔ a = some true := by
  rcases a with _ | _ | _ <;> simp

theorem foldr_disj_eq_true {β : Type} {f : β → Option Bool} {l : List β} :
    (l.foldr (fun b found => disj (f b) found) (some false)) = some true ↔
      ∃ b ∈ l, f b = some true := by
  induction l with
  | nil => simp
  | cons b l ih => simp [ih]

theorem foldr_disj_eq_false {β : Type} {f : β → Option Bool} {l : List β} :
    (l.foldr (fun b found => disj (f b) found) (some false)) = some false ↔
      ∀ b ∈ l, f b = some false := by
  induction l with
  | nil => simp
  | cons b l ih => simp [ih]

end Truth

variable {α κ τ S : Type}

/-- A row in scope, with the table it is of. -/
abbrev Bound (κ τ S : Type) := τ × (κ → S)

/-- The rows in scope. -/
abbrev Scope (α κ τ S : Type) := α → Option (Bound κ τ S)

/-- The tables of the rows in scope. -/
abbrev Typing (α τ : Type) := α → Option τ

def Scope.typing (scope : Scope α κ τ S) : Typing α τ := fun a => (scope a).map Prod.fst

/-- A database, the bound parameters, and the meaning of text that is not parsed: none where it is
no condition, and it may fail where it is one. -/
structure Session (α κ τ S : Type) where
  rows : τ → Option (List (κ → S))
  sqlType : τ → κ → Option String
  param : ℕ → String → Option S
  raw : String → Option (Scope α κ τ S → Option (Option Bool))

variable (session : Session α κ τ S)

def Col.eval (scope : Scope α κ τ S) (c : Col α κ) : Option S :=
  (scope c.row).map fun bound => bound.2 c.column

def Param.eval (p : Param) : Option S := session.param p.index p.sqlType

def Operand.eval (scope : Scope α κ τ S) : Operand α κ → Option S
  | .column c => c.eval scope
  | .param p => p.eval session

variable [DecidableEq α] [Values S]

def Scope.bind (scope : Scope α κ τ S) (row : α) (bound : Bound κ τ S) : Scope α κ τ S :=
  Function.update scope row (some bound)

/-- The truth of a condition in a scope. -/
def Cond.eval (scope : Scope α κ τ S) : Cond α κ τ → Option (Option Bool)
  | .always => some (some true)
  | .compare op c operand => do
    let a ← c.eval scope
    let b ← operand.eval session scope
    pure (Values.compare op a b)
  | .within negated c params =>
    if params.isEmpty then none
    else do
      let a ← c.eval scope
      let bs ← params.mapM (Param.eval session)
      let found := bs.foldr (fun b found => disj (Values.compare .eq a b) found) (some false)
      pure (if negated then found.map Bool.not else found)
  | .between c lower upper => do
    let a ← c.eval scope
    let b ← lower.eval session
    let b' ← upper.eval session
    pure (conj (Values.compare .ge a b) (Values.compare .le a b'))
  | .isNull negated c => do
    let a ← c.eval scope
    pure (some (if negated then !Values.isNull a else Values.isNull a))
  | .marked c => do
    let a ← c.eval scope
    pure (some (if Values.isNull a then false else (Values.boolean a).getD true))
  | .raw text => (session.raw text).bind (· scope)
  | .inSelect c selected table row cond => do
    let a ← c.eval scope
    let rows ← session.rows table
    let found ← rows.mapM fun r => do
      let scope' := scope.bind row (table, r)
      let b ← selected.eval scope'
      let truth ← cond.eval scope'
      pure (if truth = some true then Values.compare .eq a b else some false)
    pure (found.foldr disj (some false))
  | .and a b => do
    let p ← a.eval scope
    let q ← b.eval scope
    pure (conj p q)
  | .paren a => a.eval scope
  | .not a => do
    let p ← a.eval scope
    pure (p.map Bool.not)

/-- The scopes a source yields. -/
def From.eval (scope : Scope α κ τ S) : From α κ τ → Option (List (Scope α κ τ S))
  | .table t row => do
    let rows ← session.rows t
    pure (rows.map fun r => scope.bind row (t, r))
  | .joined t row other otherRow left right => do
    let rows ← session.rows t
    let others ← session.rows other
    let pairs := rows.flatMap fun r => others.map fun o =>
      (scope.bind row (t, r)).bind otherRow (other, o)
    pairs.filterM fun scope' => do
      let a ← left.eval scope'
      let b ← right.eval scope'
      pure (Values.compare .eq a b = some true)

/-- The scopes a condition is true in. -/
def Cond.select (cond : Cond α κ τ) (scopes : List (Scope α κ τ S)) :
    Option (List (Scope α κ τ S)) :=
  scopes.filterM fun scope => (cond.eval session scope).map fun truth => decide (truth = some true)

/-- Whether a list of sort keys comes before another, or with it. -/
def keysLe : List Bool → List S → List S → Bool
  | descending :: directions, a :: as, b :: bs =>
    let before := if descending then Values.le b a else Values.le a b
    let after := if descending then Values.le a b else Values.le b a
    if before && after then keysLe directions as bs else before
  | _, _, _ => true

omit [DecidableEq α] in
def sortScopes (order : List (Order α κ)) (scopes : List (Scope α κ τ S)) :
    Option (List (Scope α κ τ S)) := do
  let keyed ← scopes.mapM fun scope => do
    let keys ← order.mapM fun o => o.column.eval scope
    pure (keys, scope)
  pure ((keyed.mergeSort fun a b =>
    keysLe (order.map Order.descending) a.1 b.1).map Prod.snd)

def limited {β : Type} (limit : Option ℕ) (l : List β) : List β :=
  match limit with
  | some n => l.take n
  | none => l

/-- The rows of one alias a subquery yields. -/
def Select.eval (scope : Scope α κ τ S) (s : Select α κ τ) : Option (List (Bound κ τ S)) := do
  let scopes ← s.source.eval session scope
  let selected ← s.cond.select session scopes
  let sorted ← sortScopes s.order selected
  (limited s.limit sorted).mapM fun scope' => scope' s.row

def Col.sqlType (typing : Typing α τ) (c : Col α κ) : Option String :=
  (typing c.row).bind fun t => session.sqlType t c.column

/-- The type of a scalar. -/
def Scalar.sqlType (typing : Typing α τ) : Scalar α κ → Option String
  | .column c => c.sqlType session typing
  | .lower _ | .trim _ => some "text"
  | .coalesce s _ => s.sqlType typing

def Scalar.eval (scope : Scope α κ τ S) : Scalar α κ → Option S
  | .column c => c.eval scope
  | .lower s => (s.eval scope).map Values.lower
  | .trim s => (s.eval scope).map Values.trim
  | .coalesce s literal => do
    let v ← s.eval scope
    pure (if Values.isNull v then
      Values.literal ((s.sqlType session scope.typing).getD "") literal else v)

omit [DecidableEq α] in
def Fold.eval (scopes : List (Scope α κ τ S)) (fold : Fold α κ) : Option Json :=
  match fold with
  | .count => some (.number (toString scopes.length))
  | .sum c => (scopes.mapM (c.eval ·)).map fun vs => Values.toJson (Values.sum vs)
  | .avg c => (scopes.mapM (c.eval ·)).map fun vs => Values.toJson (Values.avg vs)
  | .min c => (scopes.mapM (c.eval ·)).map fun vs => Values.toJson (Values.min vs)
  | .max c => (scopes.mapM (c.eval ·)).map fun vs => Values.toJson (Values.max vs)
  | .collect c => (scopes.mapM (c.eval ·)).map fun vs => .array (vs.map Values.toJson)
  | .null => some .null

mutual

/-- The value of an expression inside a JSON object. -/
def Expr.eval : Expr α κ τ → Scope α κ τ S → Option Json
  | .scalar s, scope => (s.eval session scope).map Values.toJson
  | .literal text, _ => some (.string text)
  | .null, _ => some .null
  | .unlessNull first second e, scope => do
    let a ← first.eval scope
    let b ← second.eval scope
    if Values.isNull a || Values.isNull b then pure .null else e.eval scope
  | .object pairs, scope => do
    let fields ← evalPairs pairs scope
    pure (.object (Json.ofPairs fields))
  | .merged size pairs, scope => do
    let fields ← evalPairs pairs scope
    pure (.object ((fields.toChunks size).foldl
      (fun fields chunk => Json.merge fields (Json.ofPairs chunk)) []))
  | .first e source cond order, scope => do
    let scopes ← source.eval session scope
    let selected ← cond.select session scopes
    let sorted ← sortScopes order selected
    match sorted with
    | [] => pure .null
    | scope' :: _ => e.eval scope'
  | .fold fold source cond, scope => do
    let scopes ← source.eval session scope
    let selected ← cond.select session scopes
    fold.eval selected
  | .array e rows derived order, scope => do
    let bounds ← rows.eval session scope
    let sorted ← sortScopes order (bounds.map (scope.bind derived))
    let items ← sorted.mapM fun scope' => e.eval scope'
    pure (.array items)

def evalPairs : List (String × Expr α κ τ) → Scope α κ τ S → Option (List (String × Json))
  | [], _ => some []
  | (key, e) :: pairs, scope => do
    let value ← e.eval scope
    let rest ← evalPairs pairs scope
    pure ((key, value) :: rest)

end

end Sql
