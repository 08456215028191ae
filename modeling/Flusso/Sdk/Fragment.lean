import Flusso.Sdk.Derive

/-! # The fragment derive

A fragment knows no level at macro time: it emits one assertion per question,
each with its message, and hands what lies below to the embedded type.
-/

namespace Flusso

namespace Fragment

/-- The kinds a built-in leaf may stand in for; any other type says it of itself. -/
def primitiveKinds (ty : Ty) : Option (List KindTag) :=
  match ty.leafIdent with
  | "String" => some [.keyword, .text, .date, .geoPoint, .binary]
  | "bool" => some [.bool]
  | "i8" => some [.byte]
  | "i16" => some [.short]
  | "i32" => some [.integer]
  | "i64" => some [.long]
  | "f32" => some [.float]
  | "f64" => some [.double, .decimal]
  | "Decimal" => some [.decimal, .double]
  | "Uuid" => some [.keyword]
  | "NaiveDate" | "NaiveDateTime" | "DateTime" | "OffsetDateTime" | "PrimitiveDateTime"
  | "Date" => some [.date]
  | "GeoPoint" => some [.geoPoint]
  | _ => none

/-- The type a parent must drive a check into. -/
def embeddedType (field : DocField) : Option Ty :=
  if field.skip || field.isOpaque then none
  else
    let inner := field.ty.stripOption
    if inner.leafIdent = "Value" || inner.mapContainerValue.isSome then none
    else
      let element := inner.vecInner.getD inner
      if (primitiveKinds element).isSome then none else some element

section Messages

variable (fragment key : String)

def message (problem : String) : String := s!"fragment `{fragment}`: field `{key}` {problem}"

def existsMessage : String :=
  message fragment key "does not exist at the path this struct is embedded at"

def requiredMessage : String :=
  message fragment key "is declared `Option<…>`, but the schema field here is required"

def nullableMessage : String :=
  message fragment key
    "is declared required, but the schema field here is nullable — wrap it in `Option<…>`"

def arrayMessage (element : Ty) : String :=
  message fragment key
    s!"is declared `Vec<{element.render}>`, but the schema field here is not an array"

def kindMessage (element : Ty) : String :=
  message fragment key s!"is `{element.render}`, which cannot hold the schema field at this path"

def mapValueMessage (container : String) (value : Ty) : String :=
  message fragment key (s!"is a `{container}` of `{value.render}`, so the schema field here must " ++
    "be a `map` with matching value type")

def mapTextMessage (element : Ty) : String :=
  message fragment key (s!"is `{element.render}`, a map wrapper whose kind tag does not match — " ++
    "the schema field here is a `map` of `text` values, so the type needs `#[flusso(text)]`")

def mapKeywordMessage (element : Ty) : String :=
  message fragment key (s!"is `{element.render}`, a map wrapper whose kind tag does not match — " ++
    "the schema field here is a `map` of `keyword` values, so the type needs `#[flusso(keyword)]`")

def mapOtherMessage (element : Ty) : String :=
  message fragment key (s!"is `{element.render}`, a map wrapper — but the schema field here is a " ++
    "`map` of number/date values, which a kind tag cannot name; use a `HashMap`/`BTreeMap` of the " ++
    "matching value type instead")

def mapMessage (element : Ty) : String :=
  message fragment key (s!"is `{element.render}`, a map type — so the schema field here must be a " ++
    "`map` with a matching value kind")

def variantMessage : String :=
  message fragment key "declares a variant the schema does not list for this field"

def noVariantsMessage (element : Ty) : String :=
  message fragment key (s!"is `{element.render}`, marked `exhaustive` — but the schema field here " ++
    "declares no variants, so there is nothing to cover; declare `variants:` on it or drop the " ++
    "marker")

def exhaustedMessage (element : Ty) : String :=
  message fragment key (s!"is `{element.render}`, marked `exhaustive` — but it does not cover " ++
    "every variant the schema declares for this field")

end Messages

section Checks

variable (fragment : String) (level : List FieldSpec) (field : DocField)

def nullabilityCheck : List ConstCheck :=
  if field.ty.optionInner.isSome then
    [.assert (Check.nullable level field.docKey) (requiredMessage fragment field.docKey)]
  else [.assert (!Check.nullable level field.docKey) (nullableMessage fragment field.docKey)]

/-- A map container: its value kind is checked, not the container. -/
def mapCheck (container : String) (value : Ty) : List ConstCheck :=
  let msg := mapValueMessage fragment field.docKey container value
  match primitiveKinds value with
  | some tags => [.assert (Check.mapValueIs level field.docKey tags) msg]
  | none =>
    match value.derived with
    | some T => [.assert (Check.mapValueIs level field.docKey T.kinds) msg]
    | none => [.missing value]

/-- Any type that is no built-in leaf is treated alike: kinds and variants as it says, then what
lies below it. -/
def customCheck (element : Ty) : List ConstCheck :=
  match element.derived with
  | none => [.missing element]
  | some T =>
    let key := field.docKey
    let mapOk := Check.mapKindOk level key T.mapValues
    [.assert (Check.kindIs level key T.kinds) (kindMessage fragment key element),
      .assert (mapOk || Check.mapValuesOf level key ≠ some .text)
        (mapTextMessage fragment key element),
      .assert (mapOk || Check.mapValuesOf level key ≠ some .keyword)
        (mapKeywordMessage fragment key element),
      .assert (mapOk || (Check.mapValuesOf level key).isNone) (mapOtherMessage fragment key element),
      .assert mapOk (mapMessage fragment key element),
      .assert (Check.variantsCovered level key T.variants) (variantMessage fragment key),
      .assert (!T.exhaustive || Check.hasVariants level key) (noVariantsMessage fragment key element),
      .assert (!T.exhaustive || Check.variantsExhausted level key T.variants)
        (exhaustedMessage fragment key element),
      .embedded T (Check.children level key)]

/-- What kind of field the schema must have for the Rust type to hold it. -/
def shapeCheck : List ConstCheck :=
  let inner := field.ty.stripOption
  if inner.leafIdent = "Value" then []
  else
    match inner.mapContainerValue with
    | some value => mapCheck fragment level field inner.leafIdent value
    | none =>
      let element := inner.vecInner.getD inner
      match primitiveKinds element with
      | some tags =>
        (if inner.vecInner.isSome then
          [.assert (Check.array level field.docKey) (arrayMessage fragment field.docKey element)]
        else []) ++
        [.assert (Check.kindIs level field.docKey tags) (kindMessage fragment field.docKey element)]
      | none => customCheck fragment level field element

/-- The assertions for one field; a flattened group is handed the enclosing level. -/
def fieldCheck : List ConstCheck :=
  if field.skip || field.isOpaque then []
  else if field.flatten then
    match field.ty.stripOption.derived with
    | some T => [.embedded T level]
    | none => [.missing field.ty.stripOption]
  else
    .assert (Check.fieldExists level field.docKey) (existsMessage fragment field.docKey) ::
      (nullabilityCheck fragment level field ++ shapeCheck fragment level field)

/-- The fragment compiles where it is embedded, as far as this field goes. -/
def accepts : Bool := (fieldCheck fragment level field).all ConstCheck.holds

end Checks

end Fragment

end Flusso
