import Flusso.Sdk.Dsl

/-! # Query combinators

Queries composed with `and`, `or` and `not`. A bool query whose only clauses are
the ones a combinator adds to takes the new clause itself.
-/

namespace Flusso

/-- A composable query; its scope is a tag of the type checker. -/
inductive Query where
  | leaf (value : Json)
  | bool (inner : BoolInner Query)

inductive Clause where
  | must
  | filter
  | should
  | mustNot
  deriving DecidableEq

/-- How many should clauses have to match. -/
inductive MinimumShouldMatch where
  | count (n : Int32)
  | percent (p : Int32)
  | raw (expr : String)

def MinimumShouldMatch.toValue : MinimumShouldMatch → Json
  | count n => .number (toString n.toInt)
  | percent p => .string (toString p.toInt ++ "%")
  | raw expr => .string expr

namespace BoolInner

variable {α : Type}

def empty : BoolInner α where
  must := []
  filter := []
  should := []
  mustNot := []
  minimumShouldMatch := none
  boost := none

def push (b : BoolInner α) (clause : Clause) (inner : α) : BoolInner α :=
  match clause with
  | .must => { b with must := b.must ++ [inner] }
  | .filter => { b with filter := b.filter ++ [inner] }
  | .should => { b with should := b.should ++ [inner] }
  | .mustNot => { b with mustNot := b.mustNot ++ [inner] }

/-- Only the clause's own list has entries. -/
def isPure (b : BoolInner α) : Clause → Bool
  | .must => b.filter.isEmpty && b.should.isEmpty && b.mustNot.isEmpty
  | .filter => b.must.isEmpty && b.should.isEmpty && b.mustNot.isEmpty
  | .should => b.must.isEmpty && b.filter.isEmpty && b.mustNot.isEmpty
  | .mustNot => b.must.isEmpty && b.filter.isEmpty && b.should.isEmpty

end BoolInner

/-- Set a clause's list, unless it is empty. -/
def insertClause (key : String) (clauses : List Json) (target : List (String × Json)) :
    List (String × Json) :=
  if clauses.isEmpty then target else Json.insert key (.array clauses) target

def insertOption (key : String) (value : Option Json) (target : List (String × Json)) :
    List (String × Json) :=
  match value with
  | none => target
  | some value => Json.insert key value target

/-- A bool query over rendered clauses. -/
def BoolInner.toValue (b : BoolInner Json) : Json :=
  .object [("bool", .object (insertOption "boost" b.boost <|
    insertOption "minimum_should_match" b.minimumShouldMatch <|
    insertClause "must_not" b.mustNot <| insertClause "should" b.should <|
    insertClause "filter" b.filter <| insertClause "must" b.must []))]

namespace Query

mutual

/-- Render to the query language. -/
def toValue : Query → Json
  | leaf value => value
  | bool ⟨must, filter, should, mustNot, minimumShouldMatch, boost⟩ =>
    BoolInner.toValue ⟨toValues must, toValues filter, toValues should, toValues mustNot,
      minimumShouldMatch, boost⟩

def toValues : List Query → List Json
  | [] => []
  | query :: queries => toValue query :: toValues queries

end

/-- Two queries under a clause; `a` takes `b` when it is a bool query of that clause alone. -/
def combine (a b : Query) (clause : Clause) : Query :=
  match a with
  | bool inner =>
    if inner.isPure clause then bool (inner.push clause b)
    else bool ((BoolInner.empty.push clause (bool inner)).push clause b)
  | leaf value => bool ((BoolInner.empty.push clause (leaf value)).push clause b)

def and (a : Query) : Option Query → Query
  | some b => a.combine b .must
  | none => a

def or (a : Query) : Option Query → Query
  | some b => a.combine b .should
  | none => a

def not (a : Query) : Query := bool { BoolInner.empty with mustNot := [a] }

def boost (a : Query) (boost : Json) : Query :=
  match a with
  | bool inner => bool { inner with boost := some boost }
  | leaf value => bool { BoolInner.empty with must := [leaf value], boost := some boost }

def minShouldMatch (a : Query) (value : MinimumShouldMatch) : Query :=
  match a with
  | bool inner => bool { inner with minimumShouldMatch := some value.toValue }
  | leaf q =>
    bool { BoolInner.empty with should := [leaf q], minimumShouldMatch := some value.toValue }

end Query

end Flusso
