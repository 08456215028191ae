import Flusso.Document.Fields
import Mathlib.Data.List.Nodup

/-! # The chains of relations to a table

The walk over a field tree pushes every relation onto a shared chain and pops it
again on its way back. It finds the places in the tree where a relation reads the
table, each once.
-/

namespace Flusso.Document

/-- What the walk shares: the relations above the current point, and the paths found. -/
structure Walk where
  above : List Relation
  out : List (List Relation)

namespace Walk

def push (relation : Relation) (w : Walk) : Walk := { w with above := w.above ++ [relation] }

def pop (w : Walk) : Walk := { w with above := w.above.dropLast }

/-- The chain as it stands is a path, where its last relation reads the table. -/
def note (table : TableName) (relation : Relation) (w : Walk) : Walk :=
  if hits relation table then { w with out := w.out ++ [w.above] } else w

mutual

/-- One round of the loop. -/
def visit (table : TableName) : Field → Walk → Walk
  | .join _ _ source fields, w =>
    (findPaths table fields ((w.push (.join source)).note table (.join source))).pop
  | .aggregate _ _ source, w => ((w.push (.aggregate source)).note table (.aggregate source)).pop
  | .group _ _ fields, w => findPaths table fields w
  | .column .., w | .geo .., w | .constant .., w => w

def findPaths (table : TableName) : List Field → Walk → Walk
  | [], w => w
  | field :: fields, w => findPaths table fields (visit table field w)

end

end Walk

section Places

/-- The field below another, by its position at each level. -/
def fieldBelow (field : Field) : List ℕ → Option Field
  | [] => some field
  | i :: place =>
    match field.children[i]? with
    | some child => fieldBelow child place
    | none => none

/-- The relations from a field down to a field below it, both included. -/
def chainBelow (field : Field) : List ℕ → List Relation
  | [] => field.relation.toList
  | i :: place => field.relation.toList ++
    match field.children[i]? with
    | some child => chainBelow child place
    | none => []

/-- The field at a place of a tree. -/
def fieldAt (fields : List Field) : List ℕ → Option Field
  | [] => none
  | i :: place => (fields[i]?).bind fun field => fieldBelow field place

/-- The relations from the root down to a place. -/
def chainTo (fields : List Field) : List ℕ → List Relation
  | [] => []
  | i :: place => ((fields[i]?).map fun field => chainBelow field place).getD []

/-- A relation that reads the table stands at the field. -/
def ReadsAt (table : TableName) (field : Field) : Prop :=
  ∃ relation, field.relation = some relation ∧ hits relation table = true

mutual

/-- The places below a field where a relation reads the table, in the order of the walk. -/
def fieldPlaces (table : TableName) : Field → List (List ℕ)
  | .group _ _ fields => placesFrom table 0 fields
  | .join _ _ source fields =>
    (if hits (.join source) table then [[]] else []) ++ placesFrom table 0 fields
  | .aggregate _ _ source => if hits (.aggregate source) table then [[]] else []
  | .column .. | .geo .. | .constant .. => []

def placesFrom (table : TableName) (i : ℕ) : List Field → List (List ℕ)
  | [] => []
  | field :: fields => (fieldPlaces table field).map (i :: ·) ++ placesFrom table (i + 1) fields

end

variable {table : TableName} {fields : List Field} {field : Field} {above : List Relation}
  {i : ℕ} {place : List ℕ}

theorem mem_placesFrom : place ∈ placesFrom table i fields ↔
    ∃ j below field, place = (i + j) :: below ∧ fields[j]? = some field ∧
      below ∈ fieldPlaces table field := by
  induction fields generalizing i with
  | nil => simp [placesFrom]
  | cons g fields ih =>
    rw [placesFrom, List.mem_append, List.mem_map, ih]
    constructor
    · rintro (⟨below, hbelow, rfl⟩ | ⟨j, below, field, rfl, hfield, hbelow⟩)
      · exact ⟨0, below, g, rfl, rfl, hbelow⟩
      · exact ⟨j + 1, below, field, by rw [Nat.add_right_comm, Nat.add_assoc], hfield, hbelow⟩
    · rintro ⟨j, below, field, rfl, hfield, hbelow⟩
      cases j with
      | zero =>
        cases hfield
        exact .inl ⟨below, hbelow, rfl⟩
      | succ j =>
        exact .inr ⟨j, below, field, by rw [Nat.add_right_comm, Nat.add_assoc], hfield, hbelow⟩

theorem mem_fieldPlaces_iff (field : Field) : ∀ {place : List ℕ},
    place ∈ fieldPlaces table field ↔ ∃ below, fieldBelow field place = some below ∧
      ReadsAt table below := by
  induction field using Field.induct with
  | node field ih =>
    intro place
    -- Below the field itself, the place is one below a child.
    have hchildren (i : ℕ) (place : List ℕ) :
        (∃ below, fieldBelow field (i :: place) = some below ∧ ReadsAt table below) ↔
          (i :: place) ∈ placesFrom table 0 field.children := by
      rw [mem_placesFrom]
      constructor
      · rintro ⟨below, hbelow, hreads⟩
        rw [fieldBelow] at hbelow
        split at hbelow
        · next child hchild =>
          refine ⟨i, place, child, by rw [Nat.zero_add], hchild, ?_⟩
          exact (ih child (List.mem_of_getElem? hchild)).mpr ⟨below, hbelow, hreads⟩
        · cases hbelow
      · rintro ⟨j, below, child, heq, hchild, hplace⟩
        obtain ⟨rfl, rfl⟩ : i = j ∧ place = below := by simpa using heq
        obtain ⟨below, hbelow, hreads⟩ := (ih child (List.mem_of_getElem? hchild)).mp hplace
        exact ⟨below, by rw [fieldBelow, hchild]; exact hbelow, hreads⟩
    have hnil : [] ∉ placesFrom table 0 field.children := by
      rw [mem_placesFrom]
      rintro ⟨j, below, child, heq, -⟩
      cases heq
    have hself : (∃ below, fieldBelow field [] = some below ∧ ReadsAt table below) ↔
        ReadsAt table field := by simp [fieldBelow]
    cases place with
    | nil =>
      rw [hself]
      clear hself hchildren ih
      cases field <;> simp_all [fieldPlaces, ReadsAt, Field.relation, Field.children]
    | cons i place =>
      rw [hchildren]
      cases field <;> simp [fieldPlaces, Field.children, placesFrom]

theorem nodup_placesFrom (h : ∀ field ∈ fields, (fieldPlaces table field).Nodup) :
    (placesFrom table i fields).Nodup := by
  induction fields generalizing i with
  | nil => exact .nil
  | cons field fields ih =>
    rw [List.forall_mem_cons] at h
    rw [placesFrom, List.nodup_append]
    refine ⟨List.Nodup.map List.cons_injective h.1, ih h.2, ?_⟩
    rintro place hplace other hother rfl
    obtain ⟨below, -, rfl⟩ := List.mem_map.mp hplace
    obtain ⟨j, below', -, heq, -⟩ := mem_placesFrom.mp hother
    have hi := (List.cons.inj heq).1
    omega

theorem nodup_fieldPlaces (field : Field) : (fieldPlaces table field).Nodup := by
  induction field using Field.induct with
  | node field ih =>
    have hbelow : (placesFrom table 0 field.children).Nodup := nodup_placesFrom ih
    cases field with
    | group name options fields => exact hbelow
    | join name options source fields =>
      rw [fieldPlaces]
      split
      · rw [List.singleton_append, List.nodup_cons]
        refine ⟨?_, hbelow⟩
        rw [mem_placesFrom]
        rintro ⟨j, below, child, heq, -⟩
        cases heq
      · exact hbelow
    | aggregate name options source =>
      rw [fieldPlaces]
      split <;> simp
    | column => exact .nil
    | geo => exact .nil
    | constant => exact .nil

/-- The paths through a list of fields, the last of a tree's, are the chains to its places. -/
theorem findPaths_eq_of {before : List Field}
    (h : ∀ field ∈ fields, fieldPaths table above field =
      (fieldPlaces table field).map fun place => above ++ chainBelow field place) :
    findPaths table above fields = (placesFrom table before.length fields).map fun place =>
      above ++ chainTo (before ++ fields) place := by
  induction fields generalizing before with
  | nil => rfl
  | cons field fields ih =>
    rw [List.forall_mem_cons] at h
    have hrest := @ih (before ++ [field]) h.2
    rw [List.append_assoc, List.length_append, List.length_singleton,
      List.singleton_append] at hrest
    rw [findPaths, placesFrom, List.map_append, h.1, hrest, List.map_map]
    congr 1
    apply List.map_congr_left
    intro place hplace
    simp [chainTo]

theorem fieldPaths_eq (field : Field) : ∀ {above : List Relation},
    fieldPaths table above field =
      (fieldPlaces table field).map fun place => above ++ chainBelow field place := by
  induction field using Field.induct with
  | node field ih =>
    intro above
    -- The chain to a place below the field, through the relation at the field.
    have hbelow (above : List Relation) : findPaths table above field.children =
        (placesFrom table 0 field.children).map fun place =>
          above ++ chainTo field.children place :=
      @findPaths_eq_of table field.children above [] fun child hchild => ih child hchild
    have hchain {place : List ℕ} (hplace : place ∈ placesFrom table 0 field.children) :
        chainBelow field place = field.relation.toList ++ chainTo field.children place := by
      obtain ⟨j, below, child, rfl, hchild, -⟩ := mem_placesFrom.mp hplace
      rw [Nat.zero_add, chainBelow, chainTo, hchild]
      rfl
    cases field with
    | group name options fields =>
      rw [fieldPaths, fieldPlaces]
      refine (hbelow above).trans (List.map_congr_left fun place hplace => ?_)
      rw [hchain hplace]
      rfl
    | join name options source fields =>
      rw [fieldPaths, fieldPlaces, List.map_append]
      congr 1
      · split <;> rfl
      · refine (hbelow _).trans (List.map_congr_left fun place hplace => ?_)
        rw [hchain hplace, List.append_assoc]
        rfl
    | aggregate name options source =>
      rw [fieldPaths, fieldPlaces]
      split <;> rfl
    | column => rfl
    | geo => rfl
    | constant => rfl

end Places

section Walking

variable {table : TableName}

theorem Walk.findPaths_of {fields : List Field} (h : ∀ field ∈ fields, ∀ above out,
      visit table field ⟨above, out⟩ = ⟨above, out ++ fieldPaths table above field⟩)
    (above : List Relation) (out : List (List Relation)) :
    findPaths table fields ⟨above, out⟩ =
      ⟨above, out ++ Document.findPaths table above fields⟩ := by
  induction fields generalizing out with
  | nil => simp [findPaths, Document.findPaths]
  | cons field fields ih =>
    rw [List.forall_mem_cons] at h
    rw [findPaths, h.1, ih h.2, Document.findPaths, List.append_assoc]

/-- A round finds the paths through its field and leaves the chain as it was. -/
theorem Walk.visit_eq (field : Field) : ∀ (above : List Relation) (out : List (List Relation)),
    visit table field ⟨above, out⟩ = ⟨above, out ++ fieldPaths table above field⟩ := by
  induction field using Field.induct with
  | node field ih =>
    intro above out
    have hbelow := Walk.findPaths_of ih
    cases field with
    | group name options fields => exact hbelow above out
    | join name options source fields =>
      have hnote : (push (.join source) ⟨above, out⟩).note table (.join source) =
          ⟨above ++ [.join source],
            out ++ if hits (.join source) table then [above ++ [.join source]] else []⟩ := by
        unfold note
        split <;> simp [push]
      have hfields := hbelow (above ++ [.join source])
        (out ++ if hits (.join source) table then [above ++ [.join source]] else [])
      rw [visit, hnote]
      rw [Field.children] at hfields
      rw [hfields, fieldPaths]
      simp [pop]
    | aggregate name options source =>
      rw [visit, fieldPaths, note]
      split <;> simp [push, pop]
    | column => simp [visit, fieldPaths]
    | geo => simp [visit, fieldPaths]
    | constant => simp [visit, fieldPaths]

theorem Walk.findPaths_eq (fields : List Field) (above : List Relation)
    (out : List (List Relation)) : findPaths table fields ⟨above, out⟩ =
      ⟨above, out ++ Document.findPaths table above fields⟩ :=
  findPaths_of (fun field _ => visit_eq field) above out

/-- The walk finds the chains to the places where a relation reads the table, each once, and
gives the chain back as it took it. -/
theorem walk_findPaths (table : TableName) (fields : List Field) (above : List Relation)
    (out : List (List Relation)) : ∃ places : List (List ℕ), places.Nodup ∧
      (∀ place, place ∈ places ↔ ∃ field relation, fieldAt fields place = some field ∧
        field.relation = some relation ∧ hits relation table = true) ∧
      Walk.findPaths table fields ⟨above, out⟩ =
        ⟨above, out ++ places.map fun place => above ++ chainTo fields place⟩ := by
  refine ⟨placesFrom table 0 fields, nodup_placesFrom fun field _ => nodup_fieldPlaces field,
    ?_, ?_⟩
  · intro place
    rw [mem_placesFrom]
    constructor
    · rintro ⟨i, below, field, rfl, hfield, hplace⟩
      obtain ⟨found, hfound, relation, hrelation, hit⟩ := (mem_fieldPlaces_iff field).mp hplace
      refine ⟨found, relation, ?_, hrelation, hit⟩
      rw [Nat.zero_add, fieldAt, hfield]
      exact hfound
    · rintro ⟨found, relation, hfound, hrelation, hit⟩
      cases place with
      | nil => cases hfound
      | cons i below =>
        obtain ⟨field, hfield, hbelow⟩ := Option.bind_eq_some_iff.mp hfound
        refine ⟨i, below, field, by rw [Nat.zero_add], hfield, ?_⟩
        exact (mem_fieldPlaces_iff field).mpr ⟨found, hbelow, relation, hrelation, hit⟩
  · have hpaths := @findPaths_eq_of table fields above [] fun field _ => fieldPaths_eq field
    rw [Walk.findPaths_eq, hpaths]
    rfl

end Walking

end Flusso.Document
