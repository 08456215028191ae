import Flusso.Sdk.Fragment

/-! # The root derive

The root resolves the schema, so it checks each of its fields against the
resolved mapping and drives the check into what it embeds.
-/

namespace Flusso

/-- A mapping type as const-readable data; `decimal` splits what is stored as double. -/
def MappingType.tag (mappingType : MappingType) (decimal : Bool) : KindTag :=
  match mappingType with
  | keyword => .keyword
  | text => .text
  | boolean => .bool
  | byte => .byte
  | short => .short
  | integer => .integer
  | long => .long
  | float | halfFloat => .float
  | double => if decimal then .decimal else .double
  | scaledFloat => .decimal
  | date => .date
  | object => .object
  | nested => .nested
  | other name =>
    if name = "geo_point" then .geoPoint else if name = "binary" then .binary else .other

mutual

def bakeField (field : ResolvedField) : FieldSpec :=
  match field with
  | { name, mapping, nullable, array, children } =>
    { name := name.name
      kind := mapping.mappingType.tag mapping.decimal
      nullable
      array
      variants := mapping.enumOrder.getD []
      mapValues := mapping.mapValues.map fun values => values.tag false
      children := bakeLevel children }

/-- The level a root hands to the fragments it embeds. -/
def bakeLevel (level : List ResolvedField) : List FieldSpec :=
  match level with
  | [] => []
  | field :: level => bakeField field :: bakeLevel level

end

namespace Root

inductive FieldError where
  | unknown (key scope : String) (known : List String)
  | nullable (key : String)
  | required (key : String)
  | shape (key os expected : String)
  | scalar (key os : String) (expected : List String) (found : String)
  | mapValue (key os : String) (expected : List String) (found : String)
  deriving DecidableEq

def FieldError.message : FieldError → String
  | unknown key scope known =>
    s!"no field `{key}` in {scope} — known fields: " ++ ", ".intercalate (known.mergeSort (· ≤ ·))
  | nullable key => s!"field `{key}` is nullable in the schema — wrap its type in `Option<…>`"
  | required key =>
    s!"field `{key}` is required (non-null) in the schema — drop the `Option<…>`"
  | shape key os expected => s!"field `{key}` is `{os}` in the schema — expected {expected}"
  | scalar key os expected found =>
    s!"field `{key}` is `{os}` in the schema — expected `" ++ "` or `".intercalate expected ++
      s!"`, found `{found}`"
  | mapValue key os expected found =>
    s!"field `{key}` is a `{os}` map in the schema — its values must be `" ++
      "` or `".intercalate expected ++ s!"`, found `{found}`"

/-- A bound the generated code asks for. -/
inductive Deferred where
  | value (ty : Ty) (kind : Kind)
  | map (ty : Ty) (kind : Kind)

def Deferred.holds (features : Features) : Deferred → Bool
  | value ty kind => ty.isValue features kind
  | map ty kind => ty.isMap features kind

/-- The leaf types that fit a scalar mapping by name; none means anything fits. -/
def expectedLeaves : MappingType → List String
  | .text | .keyword => ["String"]
  | .boolean => ["bool"]
  | .byte => ["i8"]
  | .short => ["i16"]
  | .integer => ["i32"]
  | .long => ["i64"]
  | .float | .halfFloat => ["f32"]
  | .double | .scaledFloat => ["f64"]
  | .date => ["String", "NaiveDate", "NaiveDateTime", "DateTime", "OffsetDateTime",
      "PrimitiveDateTime", "Date"]
  | .other name =>
    if name = "geo_point" then ["GeoPoint", "String"]
    else if name = "binary" then ["String"] else []
  | .object | .nested => []

def isPrimitive (ident : String) : Bool :=
  ident ∈ ["String", "bool", "char", "i8", "i16", "i32", "i64", "i128", "isize", "u8", "u16", "u32",
    "u64", "u128", "usize", "f32", "f64"]

/-- The kind of value a scalar mapping takes from a type of one's own. -/
def kindOf (mappingType : MappingType) (decimal : Bool) : Option Kind :=
  match mappingType with
  | .keyword => some .keyword
  | .text => some .text
  | .boolean => some .bool
  | .byte => some .byte
  | .short => some .short
  | .integer => some .integer
  | .long => some .long
  | .float | .halfFloat => some .float
  | .double => some (if decimal then .decimal else .double)
  | .scaledFloat => some .decimal
  | .date => some .date
  | .object | .nested | .other _ => none

section Checks

variable (field : DocField) (resolved : ResolvedField)

def checkNullability : Except FieldError Unit :=
  match resolved.nullable, field.ty.optionInner.isSome with
  | true, false => .error (.nullable field.docKey)
  | false, true => .error (.required field.docKey)
  | _, _ => .ok ()

/-- The values of a map container are checked as a scalar; any other type must be a map of the
kind. -/
def checkMapType (inner : Ty) (values : MappingType) : Except FieldError (Option Deferred) :=
  match inner.mapContainerValue with
  | some value =>
    if value.leafIdent ∈ expectedLeaves values then .ok none
    else
      match kindOf values false with
      | some kind =>
        if isPrimitive value.leafIdent then
          .error (.mapValue field.docKey values.name (expectedLeaves values) value.leafIdent)
        else .ok (some (.value value kind))
      | none => .error (.mapValue field.docKey values.name (expectedLeaves values) value.leafIdent)
  | none => .ok ((kindOf values false).map (.map inner))

/-- A scalar: a leaf that fits by name, or a type of one's own that is a value of the kind. -/
def checkScalar (inner : Ty) : Except FieldError (Option Deferred) :=
  let mapping := resolved.mapping
  let expected := expectedLeaves mapping.mappingType
  if inner.leafIdent ∈ expected then .ok none
  else
    match kindOf mapping.mappingType mapping.decimal with
    | some kind =>
      if isPrimitive inner.leafIdent then
        .error (.scalar field.docKey mapping.mappingType.name expected inner.leafIdent)
      else .ok (some (.value inner kind))
    | none => .error (.scalar field.docKey mapping.mappingType.name expected inner.leafIdent)

/-- Fine, fine if a bound holds, or a mismatch. -/
def checkType : Except FieldError (Option Deferred) :=
  let inner := field.ty.stripOption
  let os := resolved.mapping.mappingType.name
  if inner.leafIdent = "Value" then .ok none
  else
    match resolved.mapping.mappingType with
    | .nested =>
      if inner.vecInner.isNone then
        .error (.shape field.docKey os "a `Vec<…>` (a nested array)")
      else .ok none
    | .object =>
      match resolved.mapping.mapValues with
      | some values => checkMapType field inner values
      | none =>
        if resolved.children.isEmpty then .ok none
        else if inner.vecInner.isSome || isPrimitive inner.leafIdent then
          .error (.shape field.docKey os "a struct (a sub-object)")
        else .ok none
    | scalar =>
      if (expectedLeaves scalar).isEmpty then .ok none
      else if resolved.array then
        match inner.vecInner with
        | some element => checkScalar field resolved element
        | none => .error (.shape field.docKey os "a `Vec<…>` (a flat array)")
      else checkScalar field resolved inner

end Checks

section Level

variable (features : Features) (level : List ResolvedField) (scope : String) (field : DocField)

def findField : Option ResolvedField := level.find? fun resolved => resolved.name.name = field.docKey

/-- The problems of one field, and the bounds to emit for it. -/
def validateField : List FieldError × List Deferred :=
  if field.skip || field.flatten then ([], [])
  else
    match findField level field with
    | none => ([.unknown field.docKey scope (level.map fun resolved => resolved.name.name)], [])
    | some resolved =>
      let nullability := match checkNullability field resolved with
        | .error e => [e]
        | .ok () => []
      match checkType field resolved with
      | .ok deferred => (nullability, deferred.toList)
      | .error e => (nullability ++ [e], [])

/-- Where there is a real level below to walk into. -/
def embedsLevel (resolved : ResolvedField) : Bool :=
  (resolved.mapping.mappingType = .object || resolved.mapping.mappingType = .nested) &&
    resolved.mapping.mapValues.isNone

def mapMessage (element : Ty) : String :=
  s!"field `{field.docKey}` in {scope} is not a `map` — `{element.render}` is a map type, so it " ++
    "can only hold a `map` field with a matching value kind"

def coveredMessage (order : List String) : String :=
  s!"field `{field.docKey}` in {scope} declares variants [" ++ ", ".intercalate order ++
    "] — the Rust type declares one that is not among them, so it could never match a document"

def exhaustedMessage (order : List String) : String :=
  s!"field `{field.docKey}` in {scope} declares variants [" ++ ", ".intercalate order ++
    "] — the Rust type is marked `exhaustive` but does not cover them all"

def noVariantsMessage : String :=
  s!"field `{field.docKey}` in {scope} declares no variants — the Rust type is marked " ++
    "`exhaustive`, but there is nothing to cover; declare `variants:` on the schema field or " ++
    "drop the marker"

/-- What is asked of the type embedded in a field. -/
def embedCheck (resolved : ResolvedField) (element : Ty) : List ConstCheck :=
  let baked := bakeLevel level
  let ask (checks : Custom → List ConstCheck) : List ConstCheck :=
    match element.derived with
    | some T => checks T
    | none => [.missing element]
  (if embedsLevel resolved then
    ask fun T => [
      .assert (Check.mapKindOk baked field.docKey T.mapValues) (mapMessage scope field element),
      .embedded T (Check.children baked field.docKey)]
  else []) ++
  match resolved.mapping.enumOrder with
  | some order => ask fun T => [
      .assert (Check.variantsCovered baked field.docKey T.variants)
        (coveredMessage scope field order),
      .assert (!T.exhaustive || Check.variantsExhausted baked field.docKey T.variants)
        (exhaustedMessage scope field order)]
  | none =>
    if (resolved.mapping.mappingType = .keyword || resolved.mapping.mappingType = .text) &&
        resolved.mapping.mapValues.isNone then
      ask fun T => [.assert (!T.exhaustive) (noVariantsMessage scope field)]
    else []

/-- The checks driven into one field; a flattened group is handed this level. -/
def embedChecks : List ConstCheck :=
  match Fragment.embeddedType field with
  | none => []
  | some element =>
    if field.flatten then
      match element.derived with
      | some T => [.embedded T (bakeLevel level)]
      | none => [.missing element]
    else
      match findField level field with
      | none => []
      | some resolved => embedCheck level scope field resolved element

/-- The root compiles, as far as this field goes. -/
def accepts : Bool :=
  let (errors, asserts) := validateField level scope field
  errors.isEmpty && asserts.all (Deferred.holds features) &&
    (embedChecks level scope field).all ConstCheck.holds

end Level

end Root

end Flusso
