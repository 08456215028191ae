import Flusso.Foundation.BinaryFloat
import Flusso.Kernel.Value

/-! # Values from text

The numbers and identifiers a text spells.
-/

namespace Flusso

def digit? (c : Char) : Option ℕ :=
  if '0' ≤ c ∧ c ≤ '9' then some (c.toNat - '0'.toNat) else none

def hexDigit? (c : Char) : Option ℕ :=
  if '0' ≤ c ∧ c ≤ '9' then some (c.toNat - '0'.toNat)
  else if 'a' ≤ c ∧ c ≤ 'f' then some (c.toNat - 'a'.toNat + 10)
  else if 'A' ≤ c ∧ c ≤ 'F' then some (c.toNat - 'A'.toNat + 10)
  else none

/-- The number a list of digits spells in a base. -/
def ofDigits (base : ℕ) (digits : List ℕ) : ℕ := digits.foldl (fun n d => n * base + d) 0

/-- A sign before a number, and what follows it. -/
def signed : List Char → Bool × List Char
  | '-' :: rest => (true, rest)
  | '+' :: rest => (false, rest)
  | text => (false, text)

def withSign (negative : Bool) (n : ℕ) : ℤ := if negative then -n else n

def parseInt (text : String) : Option ℤ := do
  let (negative, rest) := signed text.toList
  guard (rest ≠ [])
  let digits ← rest.mapM digit?
  pure (withSign negative (ofDigits 10 digits))

def parseI16 (text : String) : Option Int16 := do
  let i ← parseInt text
  guard (-2 ^ 15 ≤ i ∧ i < 2 ^ 15)
  pure (Int16.ofInt i)

def parseI32 (text : String) : Option Int32 := do
  let i ← parseInt text
  guard (-2 ^ 31 ≤ i ∧ i < 2 ^ 31)
  pure (Int32.ofInt i)

def parseI64 (text : String) : Option Int64 := do
  let i ← parseInt text
  guard (-2 ^ 63 ≤ i ∧ i < 2 ^ 63)
  pure (Int64.ofInt i)

/-- Digits with at most one point: the number without its point and the digits behind it. -/
def parseFixed (text : List Char) : Option (ℕ × ℕ) := do
  let whole := text.takeWhile (· ≠ '.')
  let rest := (text.dropWhile (· ≠ '.')).drop 1
  guard (whole ≠ [] ∨ rest ≠ [])
  let digits ← (whole ++ rest).mapM digit?
  pure (ofDigits 10 digits, rest.length)

def isExponent (c : Char) : Bool := c = 'e' || c = 'E'

/-- The bits, without the sign, of the float nearest to an unsigned literal. -/
def parseMagnitude (f : BinaryFloat.Format) (nan : ℕ) (text : List Char) : Option ℕ :=
  let name := String.ofList (text.map Char.toLower)
  if name = "inf" ∨ name = "infinity" then some f.infinity
  else if name = "nan" then some nan
  else do
    let (n, scale) ← parseFixed (text.takeWhile fun c => !isExponent c)
    let exponent ← match text.dropWhile (fun c => !isExponent c) with
      | [] => some 0
      | _ :: exponent => parseInt (String.ofList exponent)
    let power : ℤ := exponent - scale
    pure (BinaryFloat.ofRatio f (n * 10 ^ power.toNat) (10 ^ (-power).toNat))

def parseF32 (text : String) : Option UInt32 := do
  let (negative, rest) := signed text.toList
  let bits ← parseMagnitude BinaryFloat.single 0x7FC00000 rest
  pure (UInt32.ofNat (bits + if negative then 2 ^ 31 else 0))

def parseF64 (text : String) : Option UInt64 := do
  let (negative, rest) := signed text.toList
  let bits ← parseMagnitude BinaryFloat.double 0x7FF8000000000000 rest
  pure (UInt64.ofNat (bits + if negative then 2 ^ 63 else 0))

/-- An exact decimal: at most 96 bits of coefficient and 28 digits behind the point; zero has
no sign. -/
def Decimal.fromStrExact (text : String) : Option Decimal := do
  let (negative, rest) := signed text.toList
  let (n, scale) ← parseFixed rest
  if h : n < 2 ^ 96 ∧ scale ≤ 28 then
    some ⟨negative && n ≠ 0, n, scale, h.1, h.2⟩
  else none

/-- 32 hexadecimal digits, hyphenated or not, in braces or after `urn:uuid:`. -/
def parseUuid (text : String) : Option (BitVec 128) := do
  let chars := text.toList
  let hyphenated (body : List Char) : Option (List Char) :=
    if body.length = 36 ∧ [8, 13, 18, 23].all (fun i => body[i]? = some '-') then
      some (body.filter (· ≠ '-'))
    else none
  let body ← if chars.length = 32 then some chars
    else if chars.length = 38 ∧ chars.head? = some '{' ∧ chars.getLast? = some '}' then
      hyphenated (chars.tail.take 36)
    else if chars.take 9 = "urn:uuid:".toList then hyphenated (chars.drop 9)
    else hyphenated chars
  guard (body.length = 32)
  let digits ← body.mapM hexDigit?
  pure (BitVec.ofNat 128 (ofDigits 16 digits))

example : parseI32 "-42" = some (-42) := by decide +kernel

end Flusso
