import Worksheet.Decimal.Nearest

/-!
# The shortest decimal that reads back

`Decimal.shortest` writes a finite double with the fewest digits from which the
double can be read back, and of the decimals of that length takes the one nearest
to the exact value.  From halfway between two it is the larger one.

The search goes over grids of decimals, from one digit to seventeen.  On each
grid only the two neighbours of the value can read back, if any can.  If no grid
holds an answer the exact value is written, so that the text reads back in any
case.
-/

namespace Worksheet

namespace Decimal

/-- The least power of ten above `num / den`, for a positive quotient. -/
def magnitude (num den : Nat) : Int :=
  if den ≤ num then ((Nat.toDigits 10 (num / den)).length : Int)
  else 1 - ((Nat.toDigits 10 ((den - 1) / num)).length : Int)

/-- The largest decimal of the grid `10 ^ exponent` that is not above `num / den`. -/
def floorOnGrid (num den : Nat) (exponent : Int) : Decimal where
  digits := num * Nat.pow 10 (-exponent).toNat / (den * Nat.pow 10 exponent.toNat)
  exponent := exponent

/-- The next decimal of the same grid. -/
def next (d : Decimal) : Decimal := { d with digits := d.digits + 1 }

/-- Whether `num / den` lies below the middle between a decimal and the next one
of its grid. -/
def isBelowMiddle (num den : Nat) (d : Decimal) : Bool :=
  2 * (num * d.denominator) < (2 * d.digits + 1) * Nat.pow 10 d.exponent.toNat * den

/-- The decimal of one grid that reads back as `pattern` and is nearest to it. -/
def onGrid? (pattern : Nat) (exponent : Int) : Option Decimal :=
  let lower := floorOnGrid (Binary64.numerator pattern) (Binary64.denominator pattern) exponent
  let upper := lower.next
  match lower.trim.nearest == pattern, upper.trim.nearest == pattern with
  | true, true =>
      if isBelowMiddle (Binary64.numerator pattern) (Binary64.denominator pattern) lower then
        some lower.trim
      else some upper.trim
  | true, false => some lower.trim
  | false, true => some upper.trim
  | false, false => none

/-- The exact value of a finite pattern.  A quotient by a power of two is a
multiple of the same power of a tenth. -/
def exact (pattern : Nat) : Decimal :=
  let scale := Binary64.scale pattern
  if 0 ≤ scale then ⟨Binary64.numerator pattern, 0⟩
  else ⟨Binary64.mantissa pattern * Nat.pow 5 (-scale).toNat, scale⟩

/-- The shortest decimal that reads back as a finite pattern. -/
def shortest (pattern : Nat) : Decimal :=
  if pattern = 0 then ⟨0, 0⟩
  else
    let top := magnitude (Binary64.numerator pattern) (Binary64.denominator pattern)
    ((List.range 17).findSome? fun places : Nat => onGrid? pattern (top - 1 - places)).getD
      (exact pattern)

end Decimal

end Worksheet
