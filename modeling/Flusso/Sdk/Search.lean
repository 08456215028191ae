import Flusso.Sdk.Hits
import Flusso.Sdk.Sort

/-! # Searches

A search is a value that is run for a page of documents or for the ids on that page. For
the documents, each projection of a nested array becomes an optional clause beside the
query, which asks for the inner hits and scores like any other clause.
-/

namespace Flusso.Sdk

/-- Inside inner hits a field is sorted on as it is. -/
def SearchSort.withoutNestedContext (sort : SearchSort) : SearchSort :=
  if (Json.get sort.body "nested").isSome then
    { sort with body := sort.body.filter fun field => field.1 ≠ "nested" ∧ field.1 ≠ "mode" }
  else sort

/-- How to shape one nested array in the results. -/
structure NestedProjection where
  path : String
  query : Option Json
  sorts : List SearchSort
  size : Option UInt64
  offset : Option UInt64

def sortArray (sorts : List SearchSort) : Option Json :=
  if sorts.isEmpty then none else some (.array (sorts.map SearchSort.toValue))

def ofU64 (n : UInt64) : Json := Json.ofNat n.toNat

namespace NestedProjection

/-- `path` is that of a nested field; without a predicate each element is kept. -/
def matching (path : String) (query : Option Query) : NestedProjection where
  path := path
  query := query.map Query.toValue
  sorts := []
  size := none
  offset := none

def sort (p : NestedProjection) (sort : SearchSort) : NestedProjection :=
  { p with sorts := p.sorts ++ [sort.withoutNestedContext] }

def inner (p : NestedProjection) : List (String × Json) :=
  insertOption "sort" (sortArray p.sorts) <| insertOption "from" (p.offset.map ofU64) <|
    insertOption "size" (p.size.map ofU64) [("name", .string p.path)]

def body (p : NestedProjection) : List (String × Json) :=
  Json.insert "inner_hits" (.object p.inner) <| Json.insert "query" (p.query.getD matchAll)
    [("path", .string p.path)]

def toValue (p : NestedProjection) : Json := .object [("nested", .object p.body)]

end NestedProjection

structure Highlight where
  fields : List (String × Json)
  opts : List (String × Json)

def Highlight.toValue (h : Highlight) : Json :=
  .object (Json.insert "fields" (.object h.fields) h.opts)

structure Search where
  boolQuery : BoolInner Query
  raw : Option Json
  sort : List SearchSort
  offset : Option UInt64
  size : Option UInt64
  nested : List NestedProjection
  /-- A number, as it is rendered. -/
  minScore : Option Json
  trackTotalHits : Option Json
  trackScores : Option Bool
  searchAfter : Option (List Json)
  collapse : Option Json
  postFilter : Option Json
  highlight : Option Highlight

namespace Search

/-- A search without any clause or option. -/
def new : Search where
  boolQuery := .empty
  raw := none
  sort := []
  offset := none
  size := none
  nested := []
  minScore := none
  trackTotalHits := none
  trackScores := none
  searchAfter := none
  collapse := none
  postFilter := none
  highlight := none

variable (s : Search)

def filterNested (projection : NestedProjection) : Search :=
  { s with nested := s.nested ++ [projection] }

/-- The raw query, the clauses, or `match_all` when there are none. -/
def queryValue : Json :=
  match s.raw with
  | some raw => raw
  | none => if s.boolQuery.isEmpty then matchAll else (Query.bool s.boolQuery).toValue

/-- The query with the projections beside it. -/
def projectedQuery : Json :=
  if s.nested.isEmpty then s.queryValue
  else .object [("bool", .object
    [("must", .array [s.queryValue]), ("should", .array (s.nested.map NestedProjection.toValue))])]

def insertPageParams (root : List (String × Json)) : List (String × Json) :=
  insertOption "size" (s.size.map ofU64) <| insertOption "from" (s.offset.map ofU64) <|
    insertOption "sort" (sortArray s.sort) root

def insertSearchLevel (withHighlight : Bool) (root : List (String × Json)) :
    List (String × Json) :=
  insertOption "highlight" (if withHighlight then s.highlight.map Highlight.toValue else none) <|
    insertOption "post_filter" s.postFilter <| insertOption "collapse" s.collapse <|
    insertOption "search_after" (s.searchAfter.map Json.array) <|
    insertOption "track_scores" (s.trackScores.map Json.bool) <|
    insertOption "track_total_hits" s.trackTotalHits <| insertOption "min_score" s.minScore root

/-- The request body for a page of documents. -/
def body : List (String × Json) :=
  s.insertSearchLevel true <| s.insertPageParams [("query", s.projectedQuery)]

/-- The request body for the ids of a page. -/
def idsBody : List (String × Json) :=
  Json.insert "_source" (.bool false) <| s.insertSearchLevel false <|
    s.insertPageParams [("query", s.queryValue)]

section Reading

variable (Doc : Type) [HitEngine Doc]

/-- The request that a search makes for a query. -/
def request (query : Json) : Request where
  query := query
  sort := Request.sortKeys (sortArray s.sort)
  offset := (s.offset.map UInt64.toNat).getD 0
  size := (s.size.map UInt64.toNat).getD 10
  minScore := s.minScore.bind (HitEngine.amount Doc)
  searchAfter := s.searchAfter
  collapse := s.collapse
  postFilter := s.postFilter

theorem get_insertOption {key k : String} {value : Option Json} {target : List (String × Json)} :
    Json.get (insertOption key value target) k =
      if key = k then value.or (Json.get target k) else Json.get target k := by
  cases value with
  | none => exact (ite_self _).symm
  | some value => rw [insertOption, Json.get_insert, Option.some_or]

theorem asU64_ofU64 (n : UInt64) : (ofU64 n).asU64 = some n.toNat := Json.asU64_ofNat n.toNat_lt

theorem bind_asU64 (n : Option UInt64) :
    (n.map ofU64).bind Json.asU64 = n.map UInt64.toNat := by
  cases n with
  | none => rfl
  | some n => exact asU64_ofU64 n

theorem bind_asArray (values : Option (List Json)) :
    (values.map Json.array).bind Json.asArray = values := by
  cases values <;> rfl

theorem get_shared {key : String} (h : key ≠ "query") (hhighlight : key ≠ "highlight")
    (hsource : key ≠ "_source") : Json.get s.idsBody key = Json.get s.body key := by
  simp only [body, idsBody, insertSearchLevel, insertPageParams, get_insertOption,
    Json.get_insert, Json.get_cons, if_neg h.symm, if_neg hhighlight.symm, if_neg hsource.symm]

theorem read_body : Request.read Doc s.body = s.request Doc s.projectedQuery := by
  have hnil (key : String) : Json.get ([] : List (String × Json)) key = none := rfl
  simp [Request.read, request, body, insertSearchLevel, insertPageParams, get_insertOption,
    Json.get_cons, hnil, bind_asU64, bind_asArray]

theorem read_idsBody : Request.read Doc s.idsBody = s.request Doc s.queryValue := by
  have hquery : Json.get s.idsBody "query" = some s.queryValue := by
    simp [idsBody, insertSearchLevel, insertPageParams, get_insertOption, Json.get_insert,
      Json.get_cons]
  have hbody : Request.read Doc s.idsBody =
      { Request.read Doc s.body with query := s.queryValue } := by
    simp (disch := decide) only [Request.read, get_shared, hquery, Option.getD_some]
  rw [hbody, read_body]
  rfl

end Reading

end Search

end Flusso.Sdk
