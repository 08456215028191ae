import Flusso.Foundation.Json

/-! # Bool queries

What a query in the search engine's query language matches. A `bool` query is
read here; every other query is a leaf, and so is how many optional clauses a
`minimum_should_match` asks for, of as many as there are.
-/

namespace Flusso

/-- The clauses of a bool query. -/
structure BoolInner (α : Type) where
  must : List α
  filter : List α
  should : List α
  mustNot : List α
  minimumShouldMatch : Option Json
  boost : Option Json

/-- The engine's own part of a search. -/
class Searches (Doc : Type) where
  leaf : Json → Doc → Bool
  required : Json → ℕ → ℕ

namespace BoolInner

variable {α : Type}

def isEmpty (b : BoolInner α) : Bool :=
  b.must.isEmpty && b.filter.isEmpty && b.should.isEmpty && b.mustNot.isEmpty

/-- The number of should clauses that have to match: at least one of them where no other
clause asks for anything. -/
def threshold (required : Json → ℕ → ℕ) (b : BoolInner α) : ℕ :=
  let asked := (b.minimumShouldMatch.map fun spec => required spec b.should.length).getD 0
  if b.must.isEmpty && b.filter.isEmpty && !b.should.isEmpty then max 1 asked else asked

/-- Whether a document matches, by which clauses it matches. -/
def holds (required : Json → ℕ → ℕ) (b : BoolInner Bool) : Bool :=
  b.isEmpty || (b.must.all id && b.filter.all id && !b.mustNot.any id &&
    decide (b.threshold required ≤ b.should.count true))

end BoolInner

section Search

variable {Doc : Type} [Searches Doc] (doc : Doc)

mutual

/-- Whether a document matches a query. -/
def searchMatches : Json → Bool
  | .object fields => (boolMatches fields).getD (Searches.leaf (.object fields) doc)
  | query => Searches.leaf query doc

/-- What a bool query matches; none for another query. -/
def boolMatches : List (String × Json) → Option Bool
  | [] => none
  | (key, value) :: fields => if key = "bool" ∧ fields.isEmpty then bodyMatches value else none

def bodyMatches : Json → Option Bool
  | .object body => some <| BoolInner.holds (Searches.required Doc)
      { must := clauseMatches "must" body
        filter := clauseMatches "filter" body
        should := clauseMatches "should" body
        mustNot := clauseMatches "must_not" body
        minimumShouldMatch := Json.get body "minimum_should_match"
        boost := Json.get body "boost" }
  | _ => none

/-- The queries under one key of a bool query. -/
def clauseMatches (key : String) : List (String × Json) → List Bool
  | [] => []
  | (k, value) :: fields => if k = key then itemMatches value else clauseMatches key fields

/-- A clause is a list of queries, or a single one. -/
def itemMatches : Json → List Bool
  | .array items => allMatches items
  | .object fields => [(boolMatches fields).getD (Searches.leaf (.object fields) doc)]
  | query => [Searches.leaf query doc]

def allMatches : List Json → List Bool
  | [] => []
  | query :: queries => searchMatches query :: allMatches queries

end

end Search

end Flusso
