import Flusso.Config.Values
import Flusso.Foundation.Rounding
import Flusso.Kernel.Numerals
import Mathlib.Tactic.NormNum

/-! # Values as a sink ingests them

A generic value becomes the JSON a search engine reads: numbers as numbers,
times as texts, bytes in base 64. Decimals go through doubles.
-/

namespace Flusso

/-- A number in memory, by what it was read into. -/
inductive JsonNumber where
  | posInt (n : UInt64)
  | negInt (i : Int64) (negative : i.toInt < 0)
  | float (bits : UInt64) (finite : isFinite bits = true)
  deriving DecidableEq

/-- A JSON value in memory; an object's fields are in the order of their keys. -/
inductive JsonValue where
  | null
  | bool (b : Bool)
  | number (n : JsonNumber)
  | string (s : String)
  | array (items : List JsonValue)
  | object (fields : List (String × JsonValue))

/-- The double nearest to an integer. -/
def doubleOfInt (i : ℤ) : UInt64 :=
  UInt64.ofNat (BinaryFloat.ofRatio BinaryFloat.double i.natAbs 1 + if i < 0 then 2 ^ 63 else 0)

theorem isFinite_doubleOfInt {i : ℤ} (h : i.natAbs < 2 ^ 64) : isFinite (doubleOfInt i) = true := by
  have hbound : BinaryFloat.ofRatio BinaryFloat.double i.natAbs 1 ≤
      (1085 + 2) * 2 ^ (BinaryFloat.double.precision - 1) := by
    apply BinaryFloat.ofRatio_le_of_lt (by decide) one_pos
    have hexponent : (BinaryFloat.double.precision + (1085 : ℕ) + BinaryFloat.double.lastPlace : ℤ) =
        (64 : ℕ) := by decide
    rw [Nat.cast_one, div_one, hexponent, zpow_natCast]
    exact_mod_cast h
  have hprecision : BinaryFloat.double.precision - 1 = 52 := rfl
  have hinfinity : BinaryFloat.double.infinity = 2047 * 2 ^ 52 := rfl
  rw [hprecision] at hbound
  unfold isFinite doubleOfInt
  rw [decide_eq_true_eq, UInt64.toNat_ofNat', hinfinity]
  split <;> omega

namespace JsonNumber

def fromI64 (i : Int64) : JsonNumber :=
  if h : i.toInt < 0 then .negInt i h else .posInt (UInt64.ofNat i.toInt.toNat)

/-- Only finite doubles are numbers. -/
def fromF64 (bits : UInt64) : Option JsonNumber :=
  if h : isFinite bits = true then some (.float bits h) else none

def asI64 : JsonNumber → Option Int64
  | .posInt n => if n.toNat < 2 ^ 63 then some (Int64.ofNat n.toNat) else none
  | .negInt i _ => some i
  | .float _ _ => none

def asF64 : JsonNumber → UInt64
  | .posInt n => doubleOfInt n.toNat
  | .negInt i _ => doubleOfInt i.toInt
  | .float bits _ => bits

theorem isFinite_asF64 (n : JsonNumber) : isFinite n.asF64 = true := by
  cases n with
  | posInt n =>
    apply isFinite_doubleOfInt
    simpa using n.toNat_lt
  | negInt i hneg =>
    apply isFinite_doubleOfInt
    have hle := Int64.le_toInt i
    omega
  | float bits hfinite => exact hfinite

/-- The number that is written out. -/
def value : JsonNumber → ℚ
  | .posInt n => n.toNat
  | .negInt i _ => i.toInt
  | .float bits _ => doubleValue bits

theorem value_fromI64 (i : Int64) : (fromI64 i).value = i.toInt := by
  unfold fromI64
  split
  · rfl
  · next hnonneg =>
    have hlt : i.toInt < 2 ^ 63 := Int64.toInt_lt i
    rw [value, UInt64.toNat_ofNat', Nat.mod_eq_of_lt (by omega)]
    exact_mod_cast Int.toNat_of_nonneg (not_lt.mp hnonneg)

theorem value_of_asI64 {n : JsonNumber} {i : Int64} (h : n.asI64 = some i) :
    n.value = i.toInt := by
  cases n with
  | posInt n =>
    obtain ⟨hlt, rfl⟩ : n.toNat < 2 ^ 63 ∧ Int64.ofNat n.toNat = i := by simpa [asI64] using h
    rw [value, Int64.toInt_ofNat_of_lt (by omega)]
    rfl
  | negInt j hneg => rw [value, Option.some.inj h]
  | float bits hfinite => cases h

end JsonNumber

/-- What rust_decimal makes of a double and a double of a decimal. -/
class Decimals extends Numerals where
  ofF64 : UInt64 → Option Decimal
  toF64 : Decimal → Option UInt64

/-- Doubles and decimals that need no rounding, as they are converted. -/
abbrev exactDecimals : Decimals where
  floatText bits := floatText BinaryFloat.double (2 ^ 63) bits.toNat
  decimal := Decimal.fromStrExact
  ofF64 bits :=
    let (digits, power) := BinaryFloat.shortestDigits BinaryFloat.double (bits.toNat % 2 ^ 63)
    if h : digits * 10 ^ power.toNat < 2 ^ 96 ∧ (-power).toNat ≤ 28 then
      some ⟨2 ^ 63 ≤ bits.toNat, digits * 10 ^ power.toNat, (-power).toNat, h.1, h.2⟩
    else none
  toF64 d := some (UInt64.ofNat (BinaryFloat.ofRatio BinaryFloat.double d.coefficient (10 ^ d.scale) +
    if d.negative then 2 ^ 63 else 0))

def base64Symbol (sixBits : ℕ) : Char :=
  ("ABCDEFGHIJKLMNOPQRSTUVWXYZabcdefghijklmnopqrstuvwxyz0123456789+/".toList[sixBits % 64]?).getD 'A'

def base64Encode : List UInt8 → List Char
  | [] => []
  | [a] =>
    let n := a.toNat * 2 ^ 16
    [base64Symbol (n / 2 ^ 18), base64Symbol (n / 2 ^ 12), '=', '=']
  | [a, b] =>
    let n := a.toNat * 2 ^ 16 + b.toNat * 2 ^ 8
    [base64Symbol (n / 2 ^ 18), base64Symbol (n / 2 ^ 12), base64Symbol (n / 2 ^ 6), '=']
  | a :: b :: c :: bytes =>
    let n := a.toNat * 2 ^ 16 + b.toNat * 2 ^ 8 + c.toNat
    [base64Symbol (n / 2 ^ 18), base64Symbol (n / 2 ^ 12), base64Symbol (n / 2 ^ 6),
      base64Symbol n] ++ base64Encode bytes

/-- A float that is no number becomes null. -/
def floatToJson (bits : UInt64) : JsonValue := (JsonNumber.fromF64 bits).elim .null .number

variable [Decimals]

/-- The number a decimal is written as. -/
def Decimal.number (d : Decimal) : Option JsonNumber :=
  (Decimals.toF64 d).bind JsonNumber.fromF64

def decimalToJson (d : Decimal) : JsonValue :=
  match d.number with
  | some n => .number n
  | none => .string d.text

mutual

def toJson : GenericValue → JsonValue
  | .null => .null
  | .bool b => .bool b
  | .smallInt i => .number (.fromI64 i.toInt64)
  | .int i => .number (.fromI64 i.toInt64)
  | .bigInt i => .number (.fromI64 i)
  | .float bits => floatToJson (widen bits)
  | .double bits => floatToJson bits
  | .decimal d => decimalToJson d
  | .string s => .string s
  | .uuid u => .string (uuidText u)
  | .date d => .string d.text
  | .time t => .string t.text
  | .timestamp t => .string t.text
  | .timestampTz t => .string t.rfc3339
  | .bytes bytes => .string (String.ofList (base64Encode bytes))
  | .array items => .array (itemsToJson items)
  | .map fields => .object (fieldsToJson fields)

def itemsToJson : List GenericValue → List JsonValue
  | [] => []
  | value :: items => toJson value :: itemsToJson items

def fieldsToJson : List (String × GenericValue) → List (String × JsonValue)
  | [] => []
  | (key, value) :: fields => (key, toJson value) :: fieldsToJson fields

end

theorem itemsToJson_eq_map (items : List GenericValue) : itemsToJson items = items.map toJson := by
  induction items with
  | nil => rfl
  | cons value items ih => rw [itemsToJson, ih, List.map_cons]

theorem fieldsToJson_eq_map (fields : List (String × GenericValue)) :
    fieldsToJson fields = fields.map fun field => (field.1, toJson field.2) := by
  induction fields with
  | nil => rfl
  | cons field fields ih => rw [fieldsToJson, ih, List.map_cons]

end Flusso
