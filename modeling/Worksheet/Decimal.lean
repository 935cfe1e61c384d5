/-!
# Decimal numbers and their text

A `Decimal` is a natural number of digits scaled by a power of ten.  Its text is
positional: digits, and at most one point, whatever the size of the exponent.

Reading accepts more than writing produces.  A point may open or close the
digits, and an exponent may follow them, so one number has many texts.  It does
not accept a sign, a blank or a digit outside ASCII.  All digits of the text
count, so reading loses nothing (`Decimal.read?`).
-/

namespace Worksheet

/-- The number `digits * 10 ^ exponent`. -/
structure Decimal where
  digits : Nat
  exponent : Int
  deriving Repr, DecidableEq, Inhabited

namespace Decimal

/-! ## The value as a quotient -/

/-- The value of a decimal is `numerator / denominator`. -/
def numerator (d : Decimal) : Nat := d.digits * Nat.pow 10 d.exponent.toNat

/-- The power of ten below the point. -/
def denominator (d : Decimal) : Nat := Nat.pow 10 (-d.exponent).toNat

theorem denominator_pos (d : Decimal) : 0 < d.denominator := Nat.pow_pos (by decide)

/-! ## Writing -/

/-- The decimal without the zeros that end its digits.  Zero has no digits to
keep and gets the exponent zero. -/
def trim (d : Decimal) : Decimal :=
  if hzero : d.digits = 0 then ⟨0, 0⟩
  else if d.digits % 10 = 0 then trim ⟨d.digits / 10, d.exponent + 1⟩
  else d
termination_by d.digits
decreasing_by exact Nat.div_lt_self (Nat.pos_of_ne_zero hzero) (by decide)

/-- The digits of `n`, filled up with leading zeros to at least `width`. -/
def paddedDigits (width n : Nat) : List Char :=
  let digits := Nat.toDigits 10 n
  List.replicate (width - digits.length) '0' ++ digits

/-- The positional text of a decimal.  A whole number has no point; otherwise
every digit below the point is written. -/
def chars (d : Decimal) : List Char :=
  if 0 ≤ d.exponent then Nat.toDigits 10 d.numerator
  else
    Nat.toDigits 10 (d.digits / d.denominator) ++
      '.' :: paddedDigits (-d.exponent).toNat (d.digits % d.denominator)

/-! ## Reading -/

/-- The value of a run of digits. -/
def ofDigits (digits : List Char) : Nat := Nat.ofDigitChars 10 digits 0

/-- The exponent that a text of digits with an optional sign stands for. -/
def readSigned? : List Char → Option Int
  | '-' :: digits =>
      if digits.isEmpty || !digits.all Char.isDigit then none else some (-(ofDigits digits : Int))
  | '+' :: digits =>
      if digits.isEmpty || !digits.all Char.isDigit then none else some (ofDigits digits)
  | digits =>
      if digits.isEmpty || !digits.all Char.isDigit then none else some (ofDigits digits)

/-- The exponent that ends a number: zero if nothing is left, otherwise an `e` in
either case with an integer behind it. -/
def readExponent? : List Char → Option Int
  | [] => some 0
  | 'e' :: rest => readSigned? rest
  | 'E' :: rest => readSigned? rest
  | _ => none

/-- The decimal that a whole text spells: digits with at most one point, at least
one digit on either side of it, and an optional exponent. -/
def read? (text : List Char) : Option Decimal :=
  let whole := text.takeWhile Char.isDigit
  let rest := text.dropWhile Char.isDigit
  let (fraction, rest) := match rest with
    | '.' :: rest => (rest.takeWhile Char.isDigit, rest.dropWhile Char.isDigit)
    | rest => ([], rest)
  if whole.isEmpty && fraction.isEmpty then none
  else (readExponent? rest).map fun exponent =>
    ⟨ofDigits (whole ++ fraction), exponent - fraction.length⟩

end Decimal

end Worksheet
