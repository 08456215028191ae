import Flusso.Sdk.Pages

/-! # Projected documents

What projections ask of a document: the array at the path of one is left with the
elements that match, in the requested order and cut only where a cut was requested, and
everything else stays. A path names a place by the keys on the way to it, through objects
and through the elements of arrays.
-/

namespace Flusso.Sdk

def under (place key : String) : String := if place = "" then key else place ++ "." ++ key

theorem dot_mem_under {place key : String} (h : place ≠ "") : '.' ∈ (under place key).toList := by
  rw [under, if_neg h]
  simp

theorem under_ne_empty {place key : String} (h : place ≠ "") : under place key ≠ "" := by
  intro heq
  have hdot := @dot_mem_under place key h
  rw [heq] at hdot
  cases hdot

section Elements

/-- The elements of a value; a nested object that is not in an array is one element. -/
def itemsOf : Json → List Json
  | .array items => items
  | .object fields => [.object fields]
  | _ => []

mutual

/-- The elements at a path, in a value at a place. -/
def elementsIn (path place : String) : Json → List Json
  | .object fields => elementsOf path place fields
  | .array items => elementsOfAll path place items
  | _ => []

def elementsOf (path place : String) : List (String × Json) → List Json
  | [] => []
  | (key, value) :: fields =>
    (if under place key = path then itemsOf value else elementsIn path (under place key) value) ++
      elementsOf path place fields

def elementsOfAll (path place : String) : List Json → List Json
  | [] => []
  | item :: items => elementsIn path place item ++ elementsOfAll path place items

end

variable {path : String}

mutual

theorem elementsIn_eq_nil (hpath : '.' ∉ path.toList) {place : String} (hplace : place ≠ "") :
    (value : Json) → elementsIn path place value = []
  | .object fields => elementsOf_eq_nil hpath hplace fields
  | .array items => elementsOfAll_eq_nil hpath hplace items
  | .null | .bool _ | .number _ | .string _ => rfl

theorem elementsOf_eq_nil (hpath : '.' ∉ path.toList) {place : String} (hplace : place ≠ "") :
    (fields : List (String × Json)) → elementsOf path place fields = []
  | [] => rfl
  | (key, value) :: fields => by
    have hne : under place key ≠ path := fun heq => hpath (heq ▸ dot_mem_under hplace)
    rw [elementsOf, if_neg hne, elementsIn_eq_nil hpath (under_ne_empty hplace) value,
      elementsOf_eq_nil hpath hplace fields, List.append_nil]

theorem elementsOfAll_eq_nil (hpath : '.' ∉ path.toList) {place : String} (hplace : place ≠ "") :
    (items : List Json) → elementsOfAll path place items = []
  | [] => rfl
  | item :: items => by
    rw [elementsOfAll, elementsIn_eq_nil hpath hplace item,
      elementsOfAll_eq_nil hpath hplace items, List.append_nil]

end

end Elements

section Projected

variable {ps : List NestedProjection}

/-- No projection has the path of a place, which is not that of the document. -/
structure Untouched (ps : List NestedProjection) (place : String) : Prop where
  below : place ≠ ""
  path : ∀ p ∈ ps, p.path ≠ place

theorem untouched_under (hps : ∀ p ∈ ps, '.' ∉ p.path.toList) {place key : String}
    (h : place ≠ "") : Untouched ps (under place key) where
  below := under_ne_empty h
  path p hp heq := hps p hp (heq ▸ dot_mem_under h)

variable [HitEngine Json]

namespace NestedProjection

variable (p : NestedProjection)

/-- The elements wanted, and their order. -/
def ranking : Ranking Json := Request.ranking
  { query := p.query.getD matchAll
    sort := Request.sortKeys (sortArray p.sorts)
    offset := 0
    size := 0
    minScore := none
    searchAfter := none
    collapse := none
    postFilter := none }

/-- What the projection leaves of an array's elements. -/
def selected {α : Type} (view : α → Json) (items : List α) : List α :=
  let rest := (p.ranking.ranked view items).drop ((p.offset.map UInt64.toNat).getD 0)
  match p.size with
  | some size => rest.take size.toNat
  | none => rest

end NestedProjection

/-- The elements of the array at a place that are left; each comes with its own projected form. -/
def shape (ps : List NestedProjection) (place : String) (items : List (Json × Json)) :
    List (Json × Json) :=
  match ps.find? fun p => p.path = place with
  | some p => p.selected Prod.fst items
  | none => items

mutual

/-- A value at a place, projected. -/
def project (ps : List NestedProjection) (place : String) : Json → Json
  | .array items => .array ((shape ps place (items.zip (projectAll ps place items))).map Prod.snd)
  | .object fields => .object (projectFields ps place fields)
  | value => value

def projectFields (ps : List NestedProjection) (place : String) :
    List (String × Json) → List (String × Json)
  | [] => []
  | (key, value) :: fields =>
    (key, project ps (under place key) value) :: projectFields ps place fields

def projectAll (ps : List NestedProjection) (place : String) : List Json → List Json
  | [] => []
  | item :: items => projectItem ps place item :: projectAll ps place items

def projectItem (ps : List NestedProjection) (place : String) : Json → Json
  | .object fields => .object (projectFields ps place fields)
  | item => item

end

theorem shape_untouched {place : String} (h : Untouched ps place) (items : List (Json × Json)) :
    shape ps place items = items := by
  have hnone : (ps.find? fun p => p.path = place) = none := by
    rw [List.find?_eq_none]
    intro p hp
    simpa using h.path p hp
  rw [shape, hnone]

mutual

theorem project_untouched (hps : ∀ p ∈ ps, '.' ∉ p.path.toList) {place : String}
    (h : Untouched ps place) : (value : Json) → project ps place value = value
  | .array items => by
    rw [project, shape_untouched h, projectAll_below hps h.below items,
      List.map_snd_zip (le_refl _)]
  | .object fields => by rw [project, projectFields_below hps h.below fields]
  | .null | .bool _ | .number _ | .string _ => rfl

theorem projectFields_below (hps : ∀ p ∈ ps, '.' ∉ p.path.toList) {place : String}
    (h : place ≠ "") : (fields : List (String × Json)) → projectFields ps place fields = fields
  | [] => rfl
  | (key, value) :: fields => by
    rw [projectFields, project_untouched hps (untouched_under hps h) value,
      projectFields_below hps h fields]

theorem projectAll_below (hps : ∀ p ∈ ps, '.' ∉ p.path.toList) {place : String}
    (h : place ≠ "") : (items : List Json) → projectAll ps place items = items
  | [] => rfl
  | item :: items => by
    rw [projectAll, projectItem_below hps h item, projectAll_below hps h items]

theorem projectItem_below (hps : ∀ p ∈ ps, '.' ∉ p.path.toList) {place : String}
    (h : place ≠ "") : (item : Json) → projectItem ps place item = item
  | .object fields => by rw [projectItem, projectFields_below hps h fields]
  | .null | .bool _ | .number _ | .string _ | .array _ => rfl

end

theorem get_projectFields (fields : List (String × Json)) (key : String) :
    Json.get (projectFields ps "" fields) key = (Json.get fields key).map (project ps key) := by
  induction fields with
  | nil => rfl
  | cons field fields ih =>
    obtain ⟨k, value⟩ := field
    rw [projectFields, Json.get_cons, Json.get_cons, ih]
    by_cases hkey : k = key
    · subst hkey
      rw [if_pos rfl, if_pos rfl]
      rfl
    · rw [if_neg hkey, if_neg hkey]

end Projected

end Flusso.Sdk
