import Flusso.Cdc.Keys
import Flusso.Kernel.Parse

/-! # Typing key cells

pgoutput sends text; the type OID of a column says which value it spells.
-/

namespace Flusso.Cdc

/-- The value a cell's text spells under a type OID; the text itself for other types and for
text that does not parse. -/
def typedValue (text : String) (typeOid : UInt32) : GenericValue :=
  let parsed (value : Option GenericValue) : GenericValue := value.getD (.string text)
  match typeOid with
  | 16 =>
    match text with
    | "t" => .bool true
    | "f" => .bool false
    | _ => .string text
  | 21 => parsed ((parseI16 text).map .smallInt)
  | 23 => parsed ((parseI32 text).map .int)
  | 20 | 26 => parsed ((parseI64 text).map .bigInt)
  | 700 => parsed ((parseF32 text).map .float)
  | 701 => parsed ((parseF64 text).map .double)
  | 1700 => parsed ((Decimal.fromStrExact text).map .decimal)
  | 2950 => parsed ((parseUuid text).map .uuid)
  | _ => .string text

instance : CellValue GenericValue where
  typedValue := typedValue
  null := .null

end Flusso.Cdc
