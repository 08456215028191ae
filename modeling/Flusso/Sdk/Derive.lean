import Flusso.Kernel.Mapping
import Flusso.Sdk.Check

/-! # Two derives that check a field

A root resolves the schema and checks its own fields; a fragment checks itself
against the level the root bakes for it. What each emits for one field is kept
as the macro writes it, with what the compiler then makes of it.
-/

namespace Flusso

/-- The kind of field a value type stands in for. -/
inductive Kind where
  | keyword
  | text
  | bool
  | byte
  | short
  | integer
  | long
  | float
  | double
  | decimal
  | date
  deriving DecidableEq

def Kind.tag : Kind → KindTag
  | keyword => .keyword
  | text => .text
  | bool => .bool
  | byte => .byte
  | short => .short
  | integer => .integer
  | long => .long
  | float => .float
  | double => .double
  | decimal => .decimal
  | date => .date

/-- The cargo features that make foreign leaf types field values. -/
structure Features where
  decimal : Bool
  uuid : Bool
  chrono : Bool

/-- Built-in types, known to the derives by name. -/
inductive Leaf where
  | string
  | bool
  | char
  | i8
  | i16
  | i32
  | i64
  | i128
  | isize
  | u8
  | u16
  | u32
  | u64
  | u128
  | usize
  | f32
  | f64
  | decimal
  | uuid
  | naiveDate
  | naiveDateTime
  | dateTime
  | offsetDateTime
  | primitiveDateTime
  | date
  | geoPoint
  | value
  deriving DecidableEq

namespace Leaf

def name : Leaf → String
  | string => "String"
  | bool => "bool"
  | char => "char"
  | i8 => "i8"
  | i16 => "i16"
  | i32 => "i32"
  | i64 => "i64"
  | i128 => "i128"
  | isize => "isize"
  | u8 => "u8"
  | u16 => "u16"
  | u32 => "u32"
  | u64 => "u64"
  | u128 => "u128"
  | usize => "usize"
  | f32 => "f32"
  | f64 => "f64"
  | decimal => "Decimal"
  | uuid => "Uuid"
  | naiveDate => "NaiveDate"
  | naiveDateTime => "NaiveDateTime"
  | dateTime => "DateTime"
  | offsetDateTime => "OffsetDateTime"
  | primitiveDateTime => "PrimitiveDateTime"
  | date => "Date"
  | geoPoint => "GeoPoint"
  | value => "Value"

/-- The kinds a leaf is a value of, by the library's own impls. -/
def isValue (features : Features) : Leaf → Kind → Bool
  | string, kind => kind = .keyword || kind = .text || kind = .date
  | bool, kind => kind = .bool
  | i8, kind => kind ∈ [.byte, .short, .integer, .long, .float, .double, .decimal]
  | i16, kind => kind ∈ [.short, .integer, .long, .float, .double, .decimal]
  | i32, kind => kind ∈ [.integer, .long, .double, .decimal]
  | i64, kind => kind ∈ [.long, .decimal]
  | f32, kind => kind ∈ [.float, .double]
  | f64, kind => kind = .double
  | decimal, kind => features.decimal && kind = .decimal
  | uuid, kind => features.uuid && kind = .keyword
  | naiveDate, kind | naiveDateTime, kind | dateTime, kind => features.chrono && kind = .date
  | _, _ => false

end Leaf

/-- The names the derives know. -/
def knownNames : List String :=
  ["Option", "Vec", "HashMap", "BTreeMap", "String", "bool", "char", "i8", "i16", "i32", "i64",
    "i128", "isize", "u8", "u16", "u32", "u64", "u128", "usize", "f32", "f64", "Decimal", "Uuid",
    "NaiveDate", "NaiveDateTime", "DateTime", "OffsetDateTime", "PrimitiveDateTime", "Date",
    "GeoPoint", "Value"]

/-- A type with a derive of its own: what it says of itself as data, the impls it has, which
agree with that, and the check it runs against the level it is placed at. -/
structure Custom where
  ident : String
  kinds : List KindTag
  variants : List String
  mapValues : List KindTag
  exhaustive : Bool
  check : List FieldSpec → Bool
  isValue : Kind → Bool
  isMap : Kind → Bool
  fresh : ident ∉ knownNames
  isValue_eq : ∀ kind, isValue kind =
    (kinds.isEmpty || kinds.any fun tag => tag.accepts kind.tag)
  isMap_eq : ∀ kind, isMap kind = mapValues.any fun tag => tag.accepts kind.tag

inductive MapContainer where
  | hashMap
  | bTreeMap
  deriving DecidableEq

def MapContainer.name : MapContainer → String
  | hashMap => "HashMap"
  | bTreeMap => "BTreeMap"

/-- A field's Rust type; `plain` is a type without a derive. -/
inductive Ty where
  | option (ty : Ty)
  | vec (ty : Ty)
  | map (container : MapContainer) (key value : Ty)
  | leaf (leaf : Leaf)
  | custom (ty : Custom)
  | plain (ident : String) (fresh : ident ∉ knownNames)

namespace Ty

/-- The last path segment. -/
def leafIdent : Ty → String
  | option _ => "Option"
  | vec _ => "Vec"
  | map container _ _ => container.name
  | leaf l => l.name
  | custom T => T.ident
  | plain ident _ => ident

def optionInner : Ty → Option Ty
  | option ty => some ty
  | _ => none

def vecInner : Ty → Option Ty
  | vec ty => some ty
  | _ => none

def mapContainerValue : Ty → Option Ty
  | map _ _ value => some value
  | _ => none

def stripOption (ty : Ty) : Ty := ty.optionInner.getD ty

/-- A type as a reader would write it. -/
def render : Ty → String
  | option ty => s!"Option<{ty.render}>"
  | vec ty => s!"Vec<{ty.render}>"
  | map container key value => s!"{container.name}<{key.render}, {value.render}>"
  | leaf l => l.name
  | custom T => T.ident
  | plain ident _ => ident

/-- Whether a type is a value of a kind. -/
def isValue (features : Features) : Ty → Kind → Bool
  | leaf l, kind => l.isValue features kind
  | custom T, kind => T.isValue kind
  | _, _ => false

/-- Whether a type stands in for a map of a kind. -/
def isMap (features : Features) : Ty → Kind → Bool
  | map _ (leaf .string) value, kind => value.isValue features kind
  | custom T, kind => T.isMap kind
  | _, _ => false

/-- What a type says of itself, asked only of types that are no built-in leaf. -/
def derived : Ty → Option Custom
  | custom T => some T
  | _ => none

end Ty

/-- A struct field with its document key. -/
structure DocField where
  ty : Ty
  docKey : String
  skip : Bool
  isOpaque : Bool
  flatten : Bool

/-- What a derive emits to be checked in const evaluation. -/
inductive ConstCheck where
  | assert (holds : Bool) (message : String)
  | embedded (ty : Custom) (level : List FieldSpec)
  /-- The type has none of the items the code names. -/
  | missing (ty : Ty)

def ConstCheck.holds : ConstCheck → Bool
  | assert holds _ => holds
  | embedded T level => T.check level
  | missing _ => false

end Flusso
