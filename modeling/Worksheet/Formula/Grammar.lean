import Worksheet.Formula.Fault

/-!
# The grammar of formulas

A formula is a number, a name, a formula in parentheses, or two formulas with an
operator between them.  `Grammar.fault?` decides this without building a tree, by
looking at the two ends, at each pair of neighbours, and at the count of
parentheses so far.

The order of the looks decides which fault is reported: the ends come before the
neighbours, and the neighbours before the parentheses, each from left to right.
-/

namespace Worksheet.Grammar

/-- A fault of the first or the last token. -/
def endsFault? (tokens : List Token) : Option FormatFault :=
  match tokens.head?, tokens.getLast? with
  | some first, some last =>
      if !first.startsOperand then some (.badStart first)
      else if !last.endsOperand then some (.badEnd last)
      else none
  | _, _ => some .empty

/-- A fault of two neighbours. -/
def pairFault? (index : Nat) (before found : Token) : Option FormatFault :=
  match before.endsOperand, found.startsOperand with
  | true, true => some (.expectedOperator index before found)
  | false, false => some (.expectedOperand index before found)
  | _, _ => none

/-- The first fault of two neighbours, where `index` is the place of the first
token. -/
def neighboursFault? : (index : Nat) → List Token → Option FormatFault
  | index, before :: found :: rest =>
      (pairFault? index before found).or (neighboursFault? (index + 1) (found :: rest))
  | _, _ => none

/-- The first fault of the parentheses, where `index` is the place of the first
token, with `opened` and `closed` parentheses before it. -/
def parenthesesFault? : (index opened closed : Nat) → List Token → Option FormatFault
  | _, opened, closed, [] => if opened = closed then none else some (.unbalanced opened closed)
  | index, opened, closed, .opening :: rest =>
      parenthesesFault? (index + 1) (opened + 1) closed rest
  | index, opened, closed, .closing :: rest =>
      if opened < closed + 1 then some (.unmatchedClosing index)
      else parenthesesFault? (index + 1) opened (closed + 1) rest
  | index, opened, closed, _ :: rest => parenthesesFault? (index + 1) opened closed rest

/-- What keeps a list of tokens from being a formula, if anything does. -/
def fault? (tokens : List Token) : Option FormatFault :=
  (endsFault? tokens).or ((neighboursFault? 0 tokens).or (parenthesesFault? 0 0 0 tokens))

end Worksheet.Grammar
