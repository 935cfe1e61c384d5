import Worksheet.Formula.Token

/-!
# What may be wrong with the source of a formula

Each fault names its cause and the place where it was found.  Places count the
lexemes of the source from zero, white space not counted.
-/

namespace Worksheet

/-- The reasons for which a text is no formula. -/
inductive FormatFault where
  /-- Text that looks like a number and is none. -/
  | badNumber (index : Nat) (text : String)
  /-- A number that is too large for a double. -/
  | numberOutOfRange (index : Nat) (text : String)
  /-- A name whose stored form is no name. -/
  | illegalName (index : Nat) (given stored : String)
  /-- A name whose stored form is not in use. -/
  | nameNotAllowed (index : Nat) (stored : String)
  /-- Text of no category. -/
  | unrecognized (index : Nat) (text : String)
  /-- No lexeme at all. -/
  | empty
  /-- A first token that starts no operand. -/
  | badStart (found : Token)
  /-- A last token that ends no operand. -/
  | badEnd (found : Token)
  /-- An operand with something other than an operator or `)` behind it. -/
  | expectedOperator (index : Nat) (before found : Token)
  /-- An operator or `(` with something other than an operand behind it. -/
  | expectedOperand (index : Nat) (before found : Token)
  /-- A `)` without its `(`. -/
  | unmatchedClosing (index : Nat)
  /-- Parentheses that are still open at the end. -/
  | unbalanced (opened closed : Nat)
  deriving Repr, DecidableEq, Inhabited

namespace FormatFault

/-- A fault in words. -/
def reason : FormatFault → String
  | badNumber index text => s!"token {index}: bad number '{text}'"
  | numberOutOfRange index text => s!"token {index}: number '{text}' is out of range"
  | illegalName index given stored =>
      s!"token {index}: variable '{given}' normalizes to illegal name '{stored}'"
  | nameNotAllowed index stored => s!"token {index}: variable '{stored}' is not allowed"
  | unrecognized index text => s!"token {index}: unrecognized text '{text}'"
  | empty => "formula is empty"
  | badStart found =>
      s!"formula must start with a number, variable or '(', found '{found.text}'"
  | badEnd found => s!"formula must end with a number, variable or ')', found '{found.text}'"
  | expectedOperator index before found =>
      s!"token {index}: '{before.text}' must be followed by an operator or ')', " ++
        s!"found '{found.text}'"
  | expectedOperand index before found =>
      s!"token {index}: '{before.text}' must be followed by a number, variable or '(', " ++
        s!"found '{found.text}'"
  | unmatchedClosing index => s!"token {index}: unmatched ')'"
  | unbalanced opened closed => s!"{opened} '(' but {closed} ')'"

end FormatFault

end Worksheet
