import Worksheet.Formula.Grammar
import Worksheet.Formula.Piece

/-!
# Formulas

A `Formula` is a list of tokens that keeps to the grammar.  It is read from a
source under the name rules of a sheet, and from then on knows its names only in
their stored form: they are what its text shows, what it is compared by and what
it asks for when it is evaluated.

A source is refused for its first lexeme that means nothing, and otherwise for
the first offence against the grammar.
-/

namespace Worksheet

namespace Token

/-- What a lexeme means, where `index` is its place among the lexemes.  A number
has to be finite, and a name has to be legal and in use in its stored form. -/
def ofPiece (rules : NameRules) (index : Nat) (piece : Piece) : Except FormatFault Token :=
  let spelled := String.ofList piece.text
  match piece.category with
  | some .opening => .ok .opening
  | some .closing => .ok .closing
  | some .operator =>
      match piece.text.head?.bind Operator.ofSymbol? with
      | some op => .ok (.operator op)
      | none => .error (.unrecognized index spelled)
  | some .number =>
      match Number.readChars? piece.text with
      | some value =>
          if Number.isFinite value then .ok (.number value)
          else .error (.numberOutOfRange index spelled)
      | none => .error (.badNumber index spelled)
  | some .name =>
      let stored := rules.normalize spelled
      if !Name.isLegal stored then .error (.illegalName index spelled stored)
      else if !rules.validate stored then .error (.nameNotAllowed index stored)
      else .ok (.name stored)
  | some .blank | none => .error (.unrecognized index spelled)

/-- What the lexemes of a source mean, up to the first that means nothing. -/
def ofPieces (rules : NameRules) (pieces : List Piece) : Except FormatFault (List Token) :=
  pieces.zipIdx.mapM fun (piece, index) => ofPiece rules index piece

end Token

/-- An arithmetic formula. -/
@[ext]
structure Formula where
  tokens : List Token
  grammatical : Grammar.fault? tokens = none

namespace Formula

/-- The formula made of some tokens, if they keep to the grammar. -/
def ofTokens (tokens : List Token) : Except FormatFault Formula :=
  match hfault : Grammar.fault? tokens with
  | none => .ok ⟨tokens, hfault⟩
  | some fault => .error fault

/-- Reads a formula from the characters of its source. -/
def readChars (rules : NameRules) (source : List Char) : Except FormatFault Formula := do
  ofTokens (← Token.ofPieces rules (Piece.lexemes source))

/-- Reads a formula from its source. -/
def read (rules : NameRules) (source : String) : Except FormatFault Formula :=
  readChars rules source.toList

/-- The canonical text of a formula: its tokens with nothing between them. -/
def chars (f : Formula) : List Char := f.tokens.flatMap Token.chars

/-- The canonical text of a formula as a string. -/
def text (f : Formula) : String := String.ofList f.chars

/-- The names that a formula mentions, each once, in the order in which they
first occur. -/
def names (f : Formula) : List String := (f.tokens.filterMap Token.name?).eraseDups

/-- Two formulas are the same if their tokens are. -/
instance : BEq Formula := ⟨fun f g => f.tokens == g.tokens⟩

/-- What a formula is hashed by. -/
def key (f : Formula) : List Token.Key := f.tokens.map Token.key

instance : Hashable Formula := ⟨fun f => hash f.key⟩

end Formula

end Worksheet
