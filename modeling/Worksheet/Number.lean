import Worksheet.Decimal.Shortest

/-!
# Numbers in cells

Cells and formulas compute with doubles.  `Number.text` writes a double with the
fewest digits that read back, always positionally, and `Number.read?` reads every
number that a person may type into a cell: a sign, digits with a point and an
exponent, or one of the words for infinity and for no number in any case.
-/

namespace Worksheet

namespace Number

/-! ## Parts of a double -/

/-- The bit pattern of a double without its sign. -/
def pattern (x : Float) : Nat := x.toBits.toNat % Binary64.signBit

/-- Whether the sign bit of a double is set, as it is for the negative zero. -/
def isSigned (x : Float) : Bool := Binary64.signBit ≤ x.toBits.toNat

/-- Whether a double is a number, and not infinite. -/
def isFinite (x : Float) : Bool := pattern x < Binary64.infinity

/-- The double with a given sign and a given pattern. -/
def ofPattern (signed : Bool) (pattern : Nat) : Float :=
  Float.ofBits (UInt64.ofNat (if signed then pattern + Binary64.signBit else pattern))

/-! ## Writing -/

/-- The text of a double without its sign. -/
def unsignedChars (pattern : Nat) : List Char :=
  if pattern < Binary64.infinity then (Decimal.shortest pattern).chars
  else "inf".toList

/-- The text of a double. -/
def chars (x : Float) : List Char :=
  if Binary64.infinity < pattern x then "NaN".toList
  else if isSigned x then '-' :: unsignedChars (pattern x)
  else unsignedChars (pattern x)

/-- The text of a double: its shortest decimal, `-0`, `inf`, `-inf` or `NaN`. -/
def text (x : Float) : String := String.ofList (chars x)

/-! ## Reading -/

/-- The pattern that the text of a number without a sign stands for.  The words
are recognised in any case. -/
def readUnsigned? (text : List Char) : Option Nat :=
  match text.map Char.toLower with
  | ['i', 'n', 'f'] => some Binary64.infinity
  | ['i', 'n', 'f', 'i', 'n', 'i', 't', 'y'] => some Binary64.infinity
  | ['n', 'a', 'n'] => some Binary64.notANumber
  | _ => (Decimal.read? text).map Decimal.nearest

/-- The double that a whole text spells. -/
def readChars? : List Char → Option Float
  | '-' :: rest => (readUnsigned? rest).map (ofPattern true)
  | '+' :: rest => (readUnsigned? rest).map (ofPattern false)
  | rest => (readUnsigned? rest).map (ofPattern false)

/-- The double nearest to the number that a whole text spells, ties to even. -/
def read? (text : String) : Option Float := readChars? text.toList

end Number

end Worksheet
