import Worksheet.Name
import Worksheet.Text.Blank

/-!
# Cutting a formula into pieces

`Piece.scan` cuts the source of a formula into consecutive pieces that together
are the source.  Where a category of text matches, the piece is the longest text
that the category matches there.  Where none does, the piece is unknown text and
reaches to the next place at which one does.

Each category is given by a length: how many characters of the text ahead belong
to it, zero if it does not match.  Categories differ in the character they start
with, so at most one matches at any place and their order does not matter.

A sign is never part of a number here.  An exponent is, if a digit follows, so
`1e5` is one piece and `1e` is a number with a name behind it.
-/

namespace Worksheet

/-- The kinds of text that a formula is made of. -/
inductive Category where
  | opening
  | closing
  | operator
  | name
  | number
  | blank
  deriving Repr, DecidableEq, Inhabited

namespace Category

/-! ## How much of the text ahead belongs to a category -/

/-- The length of the run of digits ahead. -/
def digitsLength (text : List Char) : Nat := (text.takeWhile Char.isDigit).length

/-- The length of the exponent ahead: an `e` in either case, perhaps a sign, and at
least one digit. -/
def exponentLength : List Char → Nat
  | [] => 0
  | mark :: rest =>
      if mark == 'e' || mark == 'E' then
        let sign := if rest.head?.any fun c => c == '+' || c == '-' then 1 else 0
        let digits := digitsLength (rest.drop sign)
        if digits = 0 then 0 else 1 + sign + digits
      else 0

/-- The length of the digits ahead, with a point among them or at either end. -/
def mantissaLength (text : List Char) : Nat :=
  let whole := digitsLength text
  match text.drop whole with
  | '.' :: rest =>
      let fraction := digitsLength rest
      if whole = 0 && fraction = 0 then 0 else whole + 1 + fraction
  | _ => whole

/-- The length of the number ahead. -/
def numberLength (text : List Char) : Nat :=
  let mantissa := mantissaLength text
  if mantissa = 0 then 0 else mantissa + exponentLength (text.drop mantissa)

/-- The length of the name ahead. -/
def nameLength : List Char → Nat
  | [] => 0
  | first :: rest => if Name.isStart first then 1 + (rest.takeWhile Name.isPart).length else 0

/-- One if the text opens with one of some characters. -/
def singleLength (isWanted : Char → Bool) (text : List Char) : Nat :=
  if text.head?.any isWanted then 1 else 0

/-- The characters that are operators. -/
def isOperator (c : Char) : Bool := c == '+' || c == '-' || c == '*' || c == '/'

/-- The length of the text ahead that belongs to a category, or zero. -/
def matchLength : Category → List Char → Nat
  | opening, text => singleLength (· == '(') text
  | closing, text => singleLength (· == ')') text
  | operator, text => singleLength isOperator text
  | name, text => nameLength text
  | number, text => numberLength text
  | blank, text => (text.takeWhile Text.isBlank).length

/-- Every category. -/
def all : List Category := [opening, closing, operator, name, number, blank]

/-- The category that matches ahead, with its length. -/
def match? (text : List Char) : Option (Category × Nat) :=
  all.findSome? fun category =>
    let length := category.matchLength text
    if length = 0 then none else some (category, length)

theorem match?_length_pos {text : List Char} {category : Category} {length : Nat}
    (hmatch : match? text = some (category, length)) : 0 < length := by
  obtain ⟨candidate, -, hcandidate⟩ := List.exists_of_findSome?_eq_some hmatch
  simp only at hcandidate
  split at hcandidate
  · cases hcandidate
  · cases hcandidate
    omega

end Category

/-- A piece of the source of a formula.  Unknown text has no category. -/
structure Piece where
  category : Option Category
  text : List Char
  deriving Repr, DecidableEq, Inhabited

namespace Piece

/-- How far the unknown text ahead reaches. -/
def unknownLength : List Char → Nat
  | [] => 0
  | c :: rest => if (Category.match? (c :: rest)).isSome then 0 else 1 + unknownLength rest

/-- The first piece of a text. -/
def first (text : List Char) : Piece :=
  match Category.match? text with
  | some (category, length) => ⟨some category, text.take length⟩
  | none => ⟨none, text.take (unknownLength text)⟩

theorem first_text_ne_nil {text : List Char} (htext : text ≠ []) : (first text).text ≠ [] := by
  unfold first
  cases hmatch : Category.match? text with
  | some found =>
      obtain ⟨category, length⟩ := found
      have hpos : 0 < length := Category.match?_length_pos hmatch
      simp [htext, Nat.pos_iff_ne_zero.mp hpos]
  | none =>
      cases text with
      | nil => exact absurd rfl htext
      | cons c rest => simp [unknownLength, hmatch]

/-- The pieces of a text from left to right. -/
def scan : List Char → List Piece
  | [] => []
  | c :: rest => first (c :: rest) :: scan ((c :: rest).drop (first (c :: rest)).text.length)
termination_by text => text.length
decreasing_by
  have hpiece := List.length_pos_iff.mpr (first_text_ne_nil (List.cons_ne_nil c rest))
  simp only [List.length_drop, List.length_cons]
  omega

/-- The pieces of a text that mean something: all but the white space. -/
def lexemes (text : List Char) : List Piece :=
  (scan text).filter fun piece => piece.category != some .blank

end Piece

end Worksheet
