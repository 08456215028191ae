import Flusso.Kernel.Model

/-! # Validated names

Schema, table and column names are trimmed, lower-cased and held to one
identifier grammar when they are built from text.
-/

namespace Flusso

/-- The characters with the Unicode `White_Space` property. -/
def isWhitespace (c : Char) : Bool :=
  (9 ≤ c.toNat && c.toNat ≤ 13) || c.toNat = 0x20 || c.toNat = 0x85 || c.toNat = 0xA0 ||
    c.toNat = 0x1680 || (0x2000 ≤ c.toNat && c.toNat ≤ 0x200A) || c.toNat = 0x2028 ||
    c.toNat = 0x2029 || c.toNat = 0x202F || c.toNat = 0x205F || c.toNat = 0x3000

def trim (text : List Char) : List Char :=
  ((text.dropWhile isWhitespace).reverse.dropWhile isWhitespace).reverse

/-- Lower case, exact where the result is ASCII: the Kelvin sign is the one other character
with an ASCII lower case, and no other result is an identifier. -/
def lowercase (c : Char) : Char := if c.toNat = 0x212A then 'k' else c.toLower

def isIdentifierStart (c : Char) : Bool := ('a' ≤ c && c ≤ 'z') || c = '_'

def isIdentifierRest (c : Char) : Bool := isIdentifierStart c || ('0' ≤ c && c ≤ '9')

/-- `^[a-z_][a-z0-9_]*$`, at most 63 characters. -/
def isIdentifier (text : List Char) : Bool :=
  match text with
  | [] => false
  | c :: rest => isIdentifierStart c && rest.all isIdentifierRest && decide (text.length ≤ 63)

/-- The text a name is built from, as it is kept. -/
def identifier (text : String) : Option String :=
  let kept := (trim text.toList).map lowercase
  if isIdentifier kept then some (String.ofList kept) else none

def TableName.tryNew (text : String) : Option TableName := (identifier text).map TableName.mk

def ColumnName.tryNew (text : String) : Option ColumnName := (identifier text).map ColumnName.mk

def DatabaseSchema.tryNew (text : String) : Option DatabaseSchema :=
  (identifier text).map DatabaseSchema.mk

example : TableName.tryNew " Users" = some ⟨"users"⟩ := by decide

end Flusso
