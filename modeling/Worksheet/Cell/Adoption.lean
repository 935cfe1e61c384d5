import Worksheet.Cell.Content

/-!
# Contents that come ready-made

A content need not have been typed in: a program may build it.  A sheet adopts such
a content only if it has a literal.  Text that opens with `=` would read back as a
formula, and a number that is not finite would read back as text.

A formula is read again from its canonical text, so that its names follow the rules
of the sheet that adopts it and not those of the sheet it was built for.
-/

namespace Worksheet

/-- The reasons for which a sheet refuses a content. -/
inductive ContentFault where
  | format (fault : FormatFault)
  | readsAsFormula (text : String)
  | notFinite (value : Float)
  deriving Repr, DecidableEq, Inhabited

namespace ContentFault

/-- The reason in words. -/
def reason : ContentFault → String
  | format fault => fault.reason
  | readsAsFormula text => s!"text '{text}' would read back as a formula"
  | notFinite value => s!"number {Number.text value} is not finite"

/-- What is reported to the one who gave the content. -/
def message (fault : ContentFault) : String := s!"invalid formula: {fault.reason}"

end ContentFault

namespace CellContent

/-- The content that a literal stands for on a sheet. -/
def enter (rules : NameRules) (literal : String) : Except ContentFault CellContent :=
  (read rules literal).mapError .format

/-- The content that a sheet holds when it is given one. -/
def adopt (rules : NameRules) : CellContent → Except ContentFault CellContent
  | .formula f =>
      match Formula.readChars rules f.chars with
      | .ok g => .ok (.formula g)
      | .error fault => .error (.format fault)
  | .text characters =>
      if characters.toList.head? = some '=' then .error (.readsAsFormula characters)
      else .ok (.text characters)
  | .number value =>
      if Number.isFinite value then .ok (.number value) else .error (.notFinite value)

end CellContent

end Worksheet
