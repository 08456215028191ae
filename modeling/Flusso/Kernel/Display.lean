import Flusso.Foundation.BinaryFloat
import Flusso.Kernel.Model
import Flusso.Kernel.Value

/-! # Values as text

How scalar values are written out: numbers in full, floats by their shortest
digits, times with as many fraction digits as they need.
-/

namespace BinaryFloat

/-- The number a format's bits below infinity stand for, as numerator and denominator. -/
def ratio (f : Format) (bits : ℕ) : ℕ × ℕ :=
  let field := bits / 2 ^ (f.precision - 1)
  let fraction := bits % 2 ^ (f.precision - 1)
  let significand := if field = 0 then fraction else fraction + 2 ^ (f.precision - 1)
  let place : ℤ := f.lastPlace + (field - 1 : ℕ)
  (significand * 2 ^ place.toNat, 2 ^ (-place).toNat)

/-- The greatest `k` with `10 ^ k * d ≤ n`, for positive `n` and `d`. -/
def floorLog10 (n d : ℕ) : ℤ :=
  let k : ℤ := Nat.log 10 n - Nat.log 10 d
  if d * 10 ^ k.toNat ≤ n * 10 ^ (-k).toNat then k else k - 1

/-- Digits of `n / d` to a number of places, rounded down and up, with the power of ten of their
last place; the nearer of those that read back as the bits. -/
def digitsTo (f : Format) (bits n d places : ℕ) : Option (ℕ × ℤ) :=
  let power := floorLog10 n d - (places - 1 : ℕ)
  let scaled := n * 10 ^ (-power).toNat
  let unit := d * 10 ^ power.toNat
  let down := scaled / unit
  let readsBack (digits : ℕ) : Bool :=
    ofRatio f (digits * 10 ^ power.toNat) (10 ^ (-power).toNat) = bits
  match readsBack down, readsBack (down + 1) with
  | true, true =>
    some (if 2 * (scaled - down * unit) ≤ unit then down else down + 1, power)
  | true, false => some (down, power)
  | false, true => some (down + 1, power)
  | false, false => none

/-- The shortest digits that read back as the bits; seventeen are always enough. -/
def shortestDigits (f : Format) (bits : ℕ) : ℕ × ℤ :=
  let (n, d) := ratio f bits
  ((List.range 17).findSome? fun i => digitsTo f bits n d (i + 1)).getD (0, 0)

end BinaryFloat

namespace Flusso

/-- A number in at least so many digits. -/
def padded (width n : ℕ) : String :=
  let digits := toString n
  String.ofList (List.replicate (width - digits.length) '0') ++ digits

/-- A number of units of a power of ten, without an exponent. -/
def fixedText (digits : ℕ) (power : ℤ) : String :=
  if 0 ≤ power then toString (digits * 10 ^ power.toNat)
  else
    let scale := (-power).toNat
    toString (digits / 10 ^ scale) ++ "." ++ padded scale (digits % 10 ^ scale)

def floatText (f : BinaryFloat.Format) (signBit bits : ℕ) : String :=
  let magnitude := bits % signBit
  if f.infinity < magnitude then "NaN"
  else
    let sign := if signBit ≤ bits then "-" else ""
    if magnitude = f.infinity then sign ++ "inf"
    else if magnitude = 0 then sign ++ "0"
    else
      let (digits, power) := BinaryFloat.shortestDigits f magnitude
      sign ++ fixedText digits power

def Decimal.text (d : Decimal) : String :=
  (if d.negative then "-" else "") ++ fixedText d.coefficient (-d.scale)

def uuidText (u : BitVec 128) : String :=
  let digits := (List.range 32).map fun i => Nat.digitChar (u.toNat / 16 ^ (31 - i) % 16)
  let group (start length : ℕ) : String := String.ofList ((digits.drop start).take length)
  "-".intercalate [group 0 8, group 8 4, group 12 4, group 16 4, group 20 12]

/-- Years of four digits stand bare, others carry a sign. -/
def NaiveDate.text (d : NaiveDate) : String :=
  let year :=
    if 0 ≤ d.year ∧ d.year ≤ 9999 then padded 4 d.year.toNat
    else (if d.year < 0 then "-" else "+") ++ padded 4 d.year.natAbs
  year ++ "-" ++ padded 2 d.month ++ "-" ++ padded 2 d.day

/-- Seconds and their fraction; a leap second is the sixtieth. -/
def NaiveTime.text (t : NaiveTime) : String :=
  let second := t.seconds % 60 + t.nanos / 1000000000
  let nanos := t.nanos % 1000000000
  let fraction :=
    if nanos = 0 then ""
    else if nanos % 1000000 = 0 then "." ++ padded 3 (nanos / 1000000)
    else if nanos % 1000 = 0 then "." ++ padded 6 (nanos / 1000)
    else "." ++ padded 9 nanos
  padded 2 (t.seconds / 3600) ++ ":" ++ padded 2 (t.seconds / 60 % 60) ++ ":" ++
    padded 2 second ++ fraction

def NaiveDateTime.text (t : NaiveDateTime) : String := t.date.text ++ " " ++ t.time.text

/-- An instant in UTC. -/
def NaiveDateTime.rfc3339 (t : NaiveDateTime) : String :=
  t.date.text ++ "T" ++ t.time.text ++ "+00:00"

/-- The text of a scalar that has one; bytes and composites have none. -/
def GenericValue.display : GenericValue → Option String
  | bool b => some (toString b)
  | smallInt i => some (toString i.toInt)
  | int i => some (toString i.toInt)
  | bigInt i => some (toString i.toInt)
  | float bits => some (floatText BinaryFloat.single (2 ^ 31) bits.toNat)
  | double bits => some (floatText BinaryFloat.double (2 ^ 63) bits.toNat)
  | decimal d => some d.text
  | string s => some s
  | uuid u => some (uuidText u)
  | date d => some d.text
  | time t => some t.text
  | timestamp t => some t.text
  | timestampTz t => some t.rfc3339
  | bytes _ | null | array _ | map _ => none

/-- Bytes as PostgreSQL writes them. -/
def hexText (bytes : List UInt8) : String :=
  "\\x" ++ String.ofList (bytes.flatMap fun b =>
    [Nat.digitChar (b.toNat / 16), Nat.digitChar (b.toNat % 16)])

/-- The part of a document id a key value makes. -/
def GenericValue.valueToString : GenericValue → String
  | bytes bs => hexText bs
  | null => "null"
  | array _ | map _ => ""
  | v => v.display.getD ""

instance : ValueText GenericValue := ⟨GenericValue.valueToString⟩

example : (GenericValue.double 0x3FB999999999999A).display = some "0.1" := by decide +kernel

end Flusso
