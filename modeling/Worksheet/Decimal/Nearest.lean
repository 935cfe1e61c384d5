import Worksheet.Decimal

/-!
# The nearest double

A finite double without its sign is a number below `Binary64.infinity`, its bit
pattern.  Patterns are in the order of the numbers that they stand for, so a
pattern can be computed as a number, carries included: rounding up past the last
mantissa of one exponent is the first mantissa of the next, and rounding up past
the last finite pattern is `infinity`.

`nearest` rounds a quotient of naturals to the nearest double, ties to the even
pattern, and `value` gives the exact quotient that a pattern stands for.
-/

namespace Worksheet

namespace Binary64

/-- The pattern of infinity.  Every smaller one is finite, every larger one below
the sign bit stands for no number. -/
def infinity : Nat := 0x7ff0000000000000

/-- The pattern that stands for no number. -/
def notANumber : Nat := 0x7ff8000000000000

/-- The sign bit of a pattern. -/
def signBit : Nat := 0x8000000000000000

/-- The bit above the stored bits of a mantissa.  Patterns below it stand for the
numbers that are too small to have it. -/
def leadingBit : Nat := 0x10000000000000

/-! ## What a pattern stands for -/

/-- The whole part of the mantissa of a finite pattern. -/
def mantissa (pattern : Nat) : Nat :=
  if pattern < leadingBit then pattern else pattern % leadingBit + leadingBit

/-- The power of two that scales the mantissa of a finite pattern. -/
def scale (pattern : Nat) : Int :=
  if pattern < leadingBit then -1074 else (pattern / leadingBit : Nat) - 1075

/-- A finite pattern stands for `numerator / denominator`. -/
def numerator (pattern : Nat) : Nat := mantissa pattern * Nat.pow 2 (scale pattern).toNat

/-- The power of two below the numerator. -/
def denominator (pattern : Nat) : Nat := Nat.pow 2 (-scale pattern).toNat

/-! ## Rounding -/

/-- The exponent of the largest power of two that is not above `num / den`. -/
def floorLog2 (num den : Nat) : Int :=
  let guess : Int := (num.log2 : Int) - den.log2
  if den * Nat.pow 2 guess.toNat ≤ num * Nat.pow 2 (-guess).toNat then guess else guess - 1

/-- The natural number nearest to `num / den`; from halfway it is the even one. -/
def roundHalfEven (num den : Nat) : Nat :=
  let whole := num / den
  let twice := 2 * (num % den)
  if twice < den then whole
  else if den < twice then whole + 1
  else whole + whole % 2

/-- The pattern nearest to `num / den`, a quotient with a positive denominator.
The last mantissa bit weighs `2 ^ unit`, which is bounded below so that small
numbers lose bits, and not exponents. -/
def nearest (num den : Nat) : Nat :=
  if num = 0 then 0
  else
    let unit := max (floorLog2 num den - 52) (-1074)
    let rounded := roundHalfEven (num * Nat.pow 2 (-unit).toNat) (den * Nat.pow 2 unit.toNat)
    min (rounded + (unit + 1074).toNat * leadingBit) infinity

end Binary64

namespace Decimal

/-- The pattern of the double nearest to a decimal.  Two cases are decided by the
exponent alone, so that no power of ten is computed that could not fit: a digit
with more than 400 zeros behind it is beyond every finite double, and a number
below `10 ^ -400` is nearer to zero than to any other. -/
def nearest (d : Decimal) : Nat :=
  if d.digits = 0 then 0
  else if 400 < d.exponent then Binary64.infinity
  else if (d.digits.log2 : Int) + 1 + d.exponent < -400 then 0
  else Binary64.nearest d.numerator d.denominator

end Decimal

end Worksheet
