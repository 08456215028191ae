import Mathlib.Data.List.Basic

/-! # Checking a declaration against a baked level

What a root knows of the mapping is handed down as plain data; the helpers here
are what the generated checks ask of it.
-/

namespace Flusso

/-- The mapping type of a field as far as a check cares. -/
inductive KindTag where
  | keyword
  | text
  | bool
  | byte
  | short
  | integer
  | long
  | float
  | double
  | decimal
  | date
  | geoPoint
  | binary
  | object
  | nested
  | other
  deriving DecidableEq

/-- A type of one kind may stand in for the other; what is not modelled matches everything. -/
def KindTag.accepts (tag kind : KindTag) : Bool :=
  tag = .other || kind = .other || tag = kind

/-- One field of a level: its children are the level below. -/
structure FieldSpec where
  name : String
  kind : KindTag
  nullable : Bool
  array : Bool
  variants : List String
  mapValues : Option KindTag
  children : List FieldSpec

namespace Check

variable (level : List FieldSpec) (name : String)

def find : Option FieldSpec := level.find? fun field => field.name = name

def fieldExists : Bool := (find level name).isSome

def nullable : Bool := (find level name).any FieldSpec.nullable

def array : Bool := (find level name).any FieldSpec.array

/-- One of the accepted kinds can hold the field; none accepted is no opinion. -/
def kindIs (accepted : List KindTag) : Bool :=
  (find level name).any fun field =>
    accepted.isEmpty || accepted.any fun tag => tag.accepts field.kind

/-- Every variant the type declares is one of the field's, if it lists any. -/
def variantsCovered (rust : List String) : Bool :=
  (find level name).any fun field =>
    field.variants.isEmpty || rust.all fun variant => variant ∈ field.variants

def hasVariants : Bool := (find level name).any fun field => !field.variants.isEmpty

def variantsExhausted (rust : List String) : Bool :=
  (find level name).any fun field => field.variants.all fun variant => variant ∈ rust

/-- The field is a map of one of the accepted kinds, or accepts anything. -/
def mapValueIs (accepted : List KindTag) : Bool :=
  (find level name).any fun field =>
    match field.mapValues with
    | none => field.kind = .other || (field.kind = .object && field.children.isEmpty)
    | some values => accepted.isEmpty || accepted.any fun tag => tag.accepts values

def mapKindOk (accepted : List KindTag) : Bool := accepted.isEmpty || mapValueIs level name accepted

def mapValuesOf : Option KindTag := (find level name).bind FieldSpec.mapValues

/-- The level below a field, empty when it is absent. -/
def children : List FieldSpec := (find level name).elim [] FieldSpec.children

end Check

end Flusso
