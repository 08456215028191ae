import Mathlib.Algebra.Group.Nat.Defs
import Mathlib.Data.Nat.Log

/-! # Rounding to binary floating point

A nonnegative rational, given by numerator and denominator, is rounded to the
nearest number of a binary format, ties to the even one, and returned as the
bits of that number.
-/

namespace BinaryFloat

/-- A format: significand bits with the leading one, the exponent of the last place of the
least numbers, and the bits of infinity. -/
structure Format where
  precision : ℕ
  lastPlace : ℤ
  infinity : ℕ

def single : Format := ⟨24, -149, 0x7F800000⟩

def double : Format := ⟨53, -1074, 0x7FF0000000000000⟩

/-- The greatest `k` with `2 ^ k * d ≤ n`, for positive `n` and `d`. -/
def floorLog (n d : ℕ) : ℤ :=
  let k : ℤ := Nat.log 2 n - Nat.log 2 d
  if d * 2 ^ k.toNat ≤ n * 2 ^ (-k).toNat then k else k - 1

/-- `n / d` rounded to an integer, ties to the even one. -/
def roundHalfEven (n d : ℕ) : ℕ :=
  let q := n / d
  let r := n % d
  if 2 * r < d then q else if d < 2 * r then q + 1 else q + q % 2

/-- The bits of the number of a format nearest to `n / d`. -/
def ofRatio (f : Format) (n d : ℕ) : ℕ :=
  if n = 0 then 0
  else
    let place := max (floorLog n d - (f.precision - 1)) f.lastPlace
    let significand := roundHalfEven (n * 2 ^ (-place).toNat) (d * 2 ^ place.toNat)
    min ((place - f.lastPlace).toNat * 2 ^ (f.precision - 1) + significand) f.infinity

example : ofRatio double 1 10 = 0x3FB999999999999A := by decide +kernel

end BinaryFloat
