import Flusso.Foundation.Firsts
import Flusso.Foundation.Ranking
import Flusso.Sdk.Readings
import Mathlib.Algebra.Order.Field.Rat

/-! # Ranked hits

What the search engine makes of a search request. A bool query scores the sum of its
matching must and should clauses. The hits are sorted by the sort keys, or by score, and
cut to a page; a request that declares inner hits under one name twice is refused.
-/

namespace Flusso.Sdk

/-- The engine's own part of scoring and sorting. A document comes with its score. -/
class HitEngine (Doc : Type) extends Searches Doc where
  score : Json → Doc → ℚ
  amount : Json → Option ℚ
  compareKey : Json → Doc × ℚ → Doc × ℚ → Ordering
  compareKey_swap : ∀ key a b, compareKey key a b = (compareKey key b a).swap
  /-- Where a value of `search_after` stands to a document. -/
  compareValue : Json → Json → Doc × ℚ → Ordering
  collapsed : Json → Doc → String
  /-- The inner hits that a query other than a bool or nested one declares. -/
  declares : Json → List String

def matchAll : Json := .object [("match_all", .object [])]

/-- A nested query that asks for inner hits. -/
structure InnerClause where
  name : String
  path : String
  query : Json
  inner : List (String × Json)

def InnerClause.read : Json → Option InnerClause
  | .object [("nested", .object body)] =>
    match (Json.get body "path").bind Json.asStr, Json.get body "inner_hits" with
    | some path, some (.object inner) => some
      { name := ((Json.get inner "name").bind Json.asStr).getD path
        path := path
        query := (Json.get body "query").getD matchAll
        inner := inner }
    | _, _ => none
  | _ => none

/-- Inner hits that a query declares: those of a nested query, or those of a query of another
kind, by their name. -/
inductive Declared where
  | clause (c : InnerClause)
  | other (name : String)

def Declared.name : Declared → String
  | clause c => c.name
  | other name => name

def Declared.clause? : Declared → Option InnerClause
  | clause c => some c
  | other _ => none

section Engine

variable (Doc : Type) [HitEngine Doc]

/-- The inner hits a query declares; a clause that must not match has none. -/
def declared : QueryReading (List Declared) where
  leaf query :=
    match InnerClause.read query with
    | some clause => [.clause clause]
    | none => (HitEngine.declares Doc query).map .other
  node b := b.filter.flatten ++ b.must.flatten ++ b.should.flatten

variable {Doc} (doc : Doc)

/-- The score of the clauses that match. -/
def matchingScore (clauses : List (Bool × ℚ)) : ℚ := ((clauses.filter Prod.fst).map Prod.snd).sum

/-- Whether a document matches, with its score; a bool query without clauses matches all. -/
def scoring : QueryReading (Bool × ℚ) where
  leaf query := (Searches.leaf query doc, HitEngine.score query doc)
  node b :=
    let boost := (b.boost.bind (HitEngine.amount Doc)).getD 1
    ((b.map Prod.fst).holds (Searches.required Doc),
      boost * if b.isEmpty then 1 else matchingScore b.must + matchingScore b.should)

def searchScore (query : Json) : ℚ := ((scoring doc).read query).2

theorem scoring_views : QueryReading.Views Prod.fst (scoring doc) (QueryReading.matching doc) where
  leaf _ := rfl
  node _ := rfl

theorem scoring_read (query : Json) :
    (scoring doc).read query = (searchMatches doc query, searchScore doc query) := by
  rw [QueryReading.searchMatches_eq_read, ← (scoring_views doc).read, searchScore]

end Engine

section Order

variable {Doc : Type} [HitEngine Doc]

/-- How two documents compare on one sort key. -/
def keyOrder (key : Json) (a b : Doc × ℚ) : Ordering :=
  match key with
  | .object [("_score", .object body)] =>
    if (Json.get body "order").bind Json.asStr = some "asc" then compare a.2 b.2
    else compare b.2 a.2
  | key => HitEngine.compareKey key a b

def hitOrder : List Json → Doc × ℚ → Doc × ℚ → Ordering
  | [], _, _ => .eq
  | key :: keys, a, b => (keyOrder key a b).then (hitOrder keys a b)

def valueOrder (key value : Json) (hit : Doc × ℚ) : Ordering :=
  match key with
  | .object [("_score", .object body)] =>
    match HitEngine.amount Doc value with
    | some score =>
      if (Json.get body "order").bind Json.asStr = some "asc" then compare score hit.2
      else compare hit.2 score
    | none => .gt
  | key => HitEngine.compareValue key value hit

/-- Whether a document sorts after the given values. -/
def beyond (hit : Doc × ℚ) : List Json → List Json → Bool
  | key :: keys, value :: values =>
    match valueOrder key value hit with
    | .lt => true
    | .eq => beyond hit keys values
    | .gt => false
  | _, _ => false

theorem keyOrder_swap (key : Json) (a b : Doc × ℚ) :
    keyOrder key a b = (keyOrder key b a).swap := by
  unfold keyOrder
  split
  · split <;> exact Std.OrientedCmp.eq_swap
  · exact HitEngine.compareKey_swap _ _ _

theorem hitOrder_swap (keys : List Json) (a b : Doc × ℚ) :
    hitOrder keys a b = (hitOrder keys b a).swap := by
  induction keys with
  | nil => rfl
  | cons key keys ih => rw [hitOrder, hitOrder, keyOrder_swap, ih, Ordering.swap_then]

end Order

/-- The part of a search request that decides on the hits. -/
structure Request where
  query : Json
  sort : List Json
  offset : ℕ
  size : ℕ
  minScore : Option ℚ
  searchAfter : Option (List Json)
  collapse : Option Json
  postFilter : Option Json

namespace Request

/-- Sort keys as asked for, or the score when there are none. -/
def sortKeys (asked : Option Json) : List Json :=
  match asked.bind Json.asArray with
  | some (key :: keys) => key :: keys
  | _ => [.object [("_score", .object [("order", .string "desc")])]]

variable (Doc : Type) [HitEngine Doc]

/-- A request as the engine reads it, with the engine's defaults. -/
def read (body : List (String × Json)) : Request where
  query := (Json.get body "query").getD matchAll
  sort := sortKeys (Json.get body "sort")
  offset := ((Json.get body "from").bind Json.asU64).getD 0
  size := ((Json.get body "size").bind Json.asU64).getD 10
  minScore := (Json.get body "min_score").bind (HitEngine.amount Doc)
  searchAfter := (Json.get body "search_after").bind Json.asArray
  collapse := Json.get body "collapse"
  postFilter := Json.get body "post_filter"

def declared (r : Request) : List Declared :=
  (Sdk.declared Doc).read r.query ++ (r.postFilter.map (Sdk.declared Doc).read).getD []

/-- The names of the inner hits a request declares. -/
def names (r : Request) : List String := (r.declared Doc).map Declared.name

variable {Doc} (r : Request)

def keepsAt (doc : Doc) (score : ℚ) : Bool :=
  searchMatches doc r.query && r.postFilter.all (fun query => searchMatches doc query) &&
    r.minScore.all (fun least => least ≤ score) &&
    r.searchAfter.all (fun values => beyond (doc, score) r.sort values)

/-- The ranking of a request, if its documents had the scores given. -/
def rankingBy (score : Doc → ℚ) : Ranking Doc where
  keeps doc := r.keepsAt doc (score doc)
  le a b := (hitOrder r.sort (a, score a) (b, score b)).isLE
  total a b := by
    rw [hitOrder_swap r.sort (b, score b)]
    cases hitOrder r.sort (a, score a) (b, score b)
    · exact Or.inl rfl
    · exact Or.inl rfl
    · exact Or.inr rfl

def ranking : Ranking Doc := r.rankingBy fun doc => searchScore doc r.query

/-- Only the first hit of each group, when hits are collapsed. -/
def thin {α : Type} (view : α → Doc) (hits : List α) : List α :=
  match r.collapse with
  | some field => Firsts.firsts (fun hit => HitEngine.collapsed field (view hit)) hits
  | none => hits

/-- The page of a request; documents that compare alike stay in the order of the index. -/
def page {α : Type} (view : α → Doc) (index : List α) : List α :=
  r.ranking.page view (r.thin view) r.offset r.size index

end Request

/-- The ids on the page of a request, in order. -/
def pageIds {Doc : Type} [HitEngine Doc] (index : List (String × Doc))
    (body : List (String × Json)) : Option (List String) :=
  let r := Request.read Doc body
  if (r.names Doc).Nodup then some ((r.page Prod.snd index).map Prod.fst) else none

end Flusso.Sdk
