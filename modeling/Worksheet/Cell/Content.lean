import Worksheet.Formula.Evaluation

/-!
# Contents and values of cells

What a person puts into a cell is its content: a number, a text or a formula.
What the cell shows is its value, in which a formula has become a number or an
error.

A content is typed in as a literal.  A literal that spells a finite number is that
number, one that opens with `=` is a formula, and any other is text as it stands.
Words such as `inf` and numbers beyond every double are therefore texts.
-/

namespace Worksheet

/-! ## Contents -/

/-- What a cell holds.  A cell with the empty text is an empty cell. -/
inductive CellContent where
  | number (value : Float)
  | text (characters : String)
  | formula (f : Formula)

namespace CellContent

instance : Inhabited CellContent := ⟨text ""⟩

/-- Whether two contents are of one kind and the same: numbers as numbers, texts
letter by letter, formulas token by token. -/
def same : CellContent → CellContent → Bool
  | number a, number b => a == b
  | text a, text b => a == b
  | formula f, formula g => f == g
  | _, _ => false

instance : BEq CellContent := ⟨same⟩

/-- The finite number that a literal spells. -/
def readNumber? (literal : String) : Option Float :=
  (Number.read? literal).filter Number.isFinite

/-- The content that a literal stands for.  Only a formula can be refused. -/
def read (rules : NameRules) (literal : String) : Except FormatFault CellContent :=
  match readNumber? literal with
  | some value => .ok (number value)
  | none =>
      match literal.toList with
      | '=' :: source => (Formula.readChars rules source).map formula
      | _ => .ok (text literal)

/-- The literal of a content. -/
def literal : CellContent → String
  | number value => Number.text value
  | text characters => characters
  | formula f => String.ofList ('=' :: f.chars)

/-- Whether a cell with this content is empty. -/
def isEmpty : CellContent → Bool
  | text characters => characters.isEmpty
  | _ => false

/-- The formula of a cell, if it holds one. -/
def formula? : CellContent → Option Formula
  | formula f => some f
  | _ => none

end CellContent

/-! ## Values -/

/-- What a cell shows. -/
inductive CellValue where
  | number (value : Float)
  | text (characters : String)
  | error (cause : EvalError)
  deriving Repr, DecidableEq

namespace CellValue

instance : Inhabited CellValue := ⟨text ""⟩

/-- The number that a cell contributes to the formulas that mention it. -/
def number? : CellValue → Option Float
  | number value => some value
  | _ => none

/-- Whether a cell shows an error. -/
def isError : CellValue → Bool
  | error _ => true
  | _ => false

end CellValue

/-- What a cell with this content shows, where `lookup` gives the numbers of the
names that a formula mentions. -/
def CellContent.value (lookup : String → Option Float) : CellContent → CellValue
  | .number value => .number value
  | .text characters => .text characters
  | .formula f =>
      match f.evaluate lookup with
      | .ok value => .number value
      | .error cause => .error cause

end Worksheet
