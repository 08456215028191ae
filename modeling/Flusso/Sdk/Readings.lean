import Flusso.Sdk.Query

/-! # Readings of queries

A reading gives a value to each query: to a leaf directly, and to a bool query by the
values of its clauses. What a query matches is one reading, how it scores another.
-/

namespace Flusso

namespace BoolInner

variable {α β : Type}

def map (f : α → β) (b : BoolInner α) : BoolInner β where
  must := b.must.map f
  filter := b.filter.map f
  should := b.should.map f
  mustNot := b.mustNot.map f
  minimumShouldMatch := b.minimumShouldMatch
  boost := b.boost

section Rendering

variable {key k : String} {clauses : List Json} {value : Option Json}
  {target : List (String × Json)}

theorem get_insertClause_of_ne (h : key ≠ k) :
    Json.get (insertClause key clauses target) k = Json.get target k := by
  unfold insertClause
  split
  · rfl
  · rw [Json.get_insert, if_neg h]

theorem get_insertOption_of_ne (h : key ≠ k) :
    Json.get (insertOption key value target) k = Json.get target k := by
  cases value with
  | none => rfl
  | some value => rw [insertOption, Json.get_insert, if_neg h]

theorem get_insertOption (h : Json.get target key = none) :
    Json.get (insertOption key value target) key = value := by
  cases value with
  | none => exact h
  | some value => rw [insertOption, Json.get_insert, if_pos rfl]

end Rendering

end BoolInner

structure QueryReading (β : Type) where
  leaf : Json → β
  node : BoolInner β → β

namespace QueryReading

variable {β γ : Type} (r : QueryReading β)

mutual

def read : Json → β
  | .object fields => (readBool fields).getD (r.leaf (.object fields))
  | query => r.leaf query

/-- A bool query; none for another query. -/
def readBool : List (String × Json) → Option β
  | [] => none
  | (key, value) :: fields => if key = "bool" ∧ fields.isEmpty then readBody value else none

def readBody : Json → Option β
  | .object body => some <| r.node
      { must := readClause "must" body
        filter := readClause "filter" body
        should := readClause "should" body
        mustNot := readClause "must_not" body
        minimumShouldMatch := Json.get body "minimum_should_match"
        boost := Json.get body "boost" }
  | _ => none

/-- The queries under one key of a bool query. -/
def readClause (key : String) : List (String × Json) → List β
  | [] => []
  | (k, value) :: fields => if k = key then readItems value else readClause key fields

def readItems : Json → List β
  | .array items => readAll items
  | .object fields => [(readBool fields).getD (r.leaf (.object fields))]
  | query => [r.leaf query]

def readAll : List Json → List β
  | [] => []
  | query :: queries => read query :: readAll queries

end

theorem readClause_eq (key : String) (fields : List (String × Json)) :
    r.readClause key fields = ((Json.get fields key).map r.readItems).getD [] := by
  induction fields with
  | nil => rfl
  | cons field fields ih =>
    obtain ⟨k, value⟩ := field
    rw [readClause, Json.get_cons]
    split
    · rfl
    · exact ih

theorem readAll_eq_map (queries : List Json) : r.readAll queries = queries.map r.read := by
  induction queries with
  | nil => rfl
  | cons query queries ih => rw [readAll, ih, List.map_cons]

theorem read_bool (body : List (String × Json)) : r.read (.object [("bool", .object body)]) =
    r.node
      { must := r.readClause "must" body
        filter := r.readClause "filter" body
        should := r.readClause "should" body
        mustNot := r.readClause "must_not" body
        minimumShouldMatch := Json.get body "minimum_should_match"
        boost := Json.get body "boost" } := rfl

section Rendering

variable {key k : String} {clauses : List Json} {value : Option Json}
  {target : List (String × Json)}

theorem readClause_insertClause_of_ne (h : key ≠ k) :
    r.readClause k (insertClause key clauses target) = r.readClause k target := by
  rw [readClause_eq, BoolInner.get_insertClause_of_ne h, readClause_eq]

theorem readClause_insertOption_of_ne (h : key ≠ k) :
    r.readClause k (insertOption key value target) = r.readClause k target := by
  rw [readClause_eq, BoolInner.get_insertOption_of_ne h, readClause_eq]

theorem readClause_insertClause (h : r.readClause key target = []) :
    r.readClause key (insertClause key clauses target) = clauses.map r.read := by
  unfold insertClause
  split
  · next hempty => rw [h, List.isEmpty_iff.mp hempty, List.map_nil]
  · rw [readClause_eq, Json.get_insert, if_pos rfl]
    exact r.readAll_eq_map clauses

theorem read_toValue (b : BoolInner Json) : r.read b.toValue = r.node (b.map r.read) := by
  rw [BoolInner.toValue, read_bool]
  congr 1
  simp (disch := decide) only [readClause_insertOption_of_ne, readClause_insertClause_of_ne,
    BoolInner.get_insertOption_of_ne, BoolInner.map, BoolInner.mk.injEq]
  refine ⟨r.readClause_insertClause rfl, r.readClause_insertClause ?_,
    r.readClause_insertClause ?_, r.readClause_insertClause ?_, BoolInner.get_insertOption ?_,
    BoolInner.get_insertOption ?_⟩ <;>
  · simp (disch := decide) only [readClause_insertClause_of_ne, BoolInner.get_insertOption_of_ne,
      BoolInner.get_insertClause_of_ne]
    rfl

end Rendering

/-- One reading is a view of another. -/
structure Views (f : β → γ) (r : QueryReading β) (s : QueryReading γ) : Prop where
  leaf : ∀ query, f (r.leaf query) = s.leaf query
  node : ∀ b, f (r.node b) = s.node (b.map f)

section Views

variable {r} {f : β → γ} {s : QueryReading γ}

mutual

theorem Views.read (h : Views f r s) : (query : Json) → f (r.read query) = s.read query
  | .object fields => by
    rw [QueryReading.read, QueryReading.read, ← h.readBool fields, ← h.leaf]
    cases r.readBool fields <;> rfl
  | .null | .bool _ | .number _ | .string _ | .array _ => h.leaf _

theorem Views.readBool (h : Views f r s) : (fields : List (String × Json)) →
    (r.readBool fields).map f = s.readBool fields
  | [] => rfl
  | (key, value) :: fields => by
    rw [QueryReading.readBool, QueryReading.readBool, ← h.readBody value]
    split <;> rfl

theorem Views.readBody (h : Views f r s) : (body : Json) → (r.readBody body).map f = s.readBody body
  | .object body => by
    rw [QueryReading.readBody, QueryReading.readBody, Option.map_some, h.node]
    simp only [BoolInner.map, h.readClause _ body]
  | .null | .bool _ | .number _ | .string _ | .array _ => rfl

theorem Views.readClause (h : Views f r s) (key : String) : (fields : List (String × Json)) →
    (r.readClause key fields).map f = s.readClause key fields
  | [] => rfl
  | (k, value) :: fields => by
    rw [QueryReading.readClause, QueryReading.readClause, ← h.readItems value,
      ← h.readClause key fields]
    split <;> rfl

theorem Views.readItems (h : Views f r s) : (value : Json) →
    (r.readItems value).map f = s.readItems value
  | .array items => by
    rw [QueryReading.readItems, QueryReading.readItems, h.readAll]
  | .object fields => by
    rw [QueryReading.readItems, QueryReading.readItems, ← h.readBool fields, ← h.leaf]
    cases r.readBool fields <;> rfl
  | .null | .bool _ | .number _ | .string _ => congrArg (fun x => [x]) (h.leaf _)

theorem Views.readAll (h : Views f r s) : (queries : List Json) →
    (r.readAll queries).map f = s.readAll queries
  | [] => rfl
  | query :: queries => by
    rw [QueryReading.readAll, QueryReading.readAll, List.map_cons, h.read query,
      h.readAll queries]

end

end Views

section Matching

variable {Doc : Type} [Searches Doc] (doc : Doc)

/-- What a query matches, as a reading. -/
def matching : QueryReading Bool where
  leaf query := Searches.leaf query doc
  node b := b.holds (Searches.required Doc)

mutual

theorem searchMatches_eq_read : (query : Json) → searchMatches doc query = (matching doc).read query
  | .object fields => by
    rw [searchMatches, read, boolMatches_eq_read fields]
    rfl
  | .null | .bool _ | .number _ | .string _ | .array _ => rfl

theorem boolMatches_eq_read : (fields : List (String × Json)) →
    boolMatches doc fields = (matching doc).readBool fields
  | [] => rfl
  | (key, value) :: fields => by
    rw [boolMatches, readBool, bodyMatches_eq_read value]

theorem bodyMatches_eq_read : (body : Json) → bodyMatches doc body = (matching doc).readBody body
  | .object body => by
    rw [bodyMatches, readBody]
    simp only [clauseMatches_eq_read _ body]
    rfl
  | .null | .bool _ | .number _ | .string _ | .array _ => rfl

theorem clauseMatches_eq_read (key : String) : (fields : List (String × Json)) →
    clauseMatches doc key fields = (matching doc).readClause key fields
  | [] => rfl
  | (k, value) :: fields => by
    rw [clauseMatches, readClause, itemMatches_eq_read value, clauseMatches_eq_read key fields]

theorem itemMatches_eq_read : (value : Json) →
    itemMatches doc value = (matching doc).readItems value
  | .array items => by rw [itemMatches, readItems, allMatches_eq_read items]
  | .object fields => by
    rw [itemMatches, readItems, boolMatches_eq_read fields]
    rfl
  | .null | .bool _ | .number _ | .string _ => rfl

theorem allMatches_eq_read : (queries : List Json) →
    allMatches doc queries = (matching doc).readAll queries
  | [] => rfl
  | query :: queries => by
    rw [allMatches, readAll, searchMatches_eq_read query, allMatches_eq_read queries]

end

end Matching

end QueryReading

end Flusso
