import Worksheet.Number

/-!
# Tokens

What a formula is made of once its pieces have been understood: numbers, names in
their stored form, operators and parentheses.

Two tokens are the same if they mean the same.  Numbers are compared as numbers,
so `2.0` and `2.000` are one token.  `Token.key` is what a token is hashed by; it
holds a number as its bit pattern.
-/

namespace Worksheet

/-! ## Operators -/

/-- The four operators.  `times` and `divide` bind tighter than `plus` and `minus`. -/
inductive Operator where
  | plus
  | minus
  | times
  | divide
  deriving Repr, DecidableEq, Hashable, Inhabited

namespace Operator

/-- The character that writes an operator. -/
def symbol : Operator → Char
  | plus => '+'
  | minus => '-'
  | times => '*'
  | divide => '/'

/-- The operator that a character writes. -/
def ofSymbol? : Char → Option Operator
  | '+' => some plus
  | '-' => some minus
  | '*' => some times
  | '/' => some divide
  | _ => none

theorem ofSymbol?_symbol (op : Operator) : ofSymbol? op.symbol = some op := by cases op <;> rfl

/-- Whether an operator binds tighter than a sum. -/
def isMultiplicative : Operator → Bool
  | times | divide => true
  | plus | minus => false

end Operator

/-! ## Tokens -/

/-- A part of a formula that means something. -/
inductive Token where
  | number (value : Float)
  | name (stored : String)
  | operator (op : Operator)
  | opening
  | closing
  deriving Repr, DecidableEq, Inhabited

namespace Token

/-- Whether an operand may start here. -/
def startsOperand : Token → Bool
  | number _ | name _ | opening => true
  | operator _ | closing => false

/-- Whether an operand may end here. -/
def endsOperand : Token → Bool
  | number _ | name _ | closing => true
  | operator _ | opening => false

/-- The stored name that a token holds. -/
def name? : Token → Option String
  | name stored => some stored
  | _ => none

/-- The text of a token. -/
def chars : Token → List Char
  | number value => Number.chars value
  | name stored => stored.toList
  | operator op => [op.symbol]
  | opening => ['(']
  | closing => [')']

/-- The text of a token as a string. -/
def text (token : Token) : String := String.ofList token.chars

/-! ## Sameness -/

/-- Whether two tokens mean the same. -/
def same : Token → Token → Bool
  | number a, number b => a == b
  | name a, name b => a == b
  | operator a, operator b => a == b
  | opening, opening => true
  | closing, closing => true
  | _, _ => false

instance : BEq Token := ⟨same⟩

/-- What a token is hashed by. -/
inductive Key where
  | number (bits : UInt64)
  | name (stored : String)
  | operator (op : Operator)
  | opening
  | closing
  deriving Repr, DecidableEq, Hashable, Inhabited

/-- The key of a token. -/
def key : Token → Key
  | number value => .number value.toBits
  | name stored => .name stored
  | operator op => .operator op
  | opening => .opening
  | closing => .closing

end Token

end Worksheet
