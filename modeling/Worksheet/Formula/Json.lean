import Worksheet.Formula
import Worksheet.Json.Value

/-!
# Formulas in JSON

In JSON a formula is its canonical text between quotes.  It is read back without
name rules, since its names are in their stored form already.
-/

namespace Worksheet.Formula

/-- The reasons for which a JSON value is no formula. -/
inductive JsonFault where
  | notText
  | format (fault : FormatFault)
  deriving Repr, DecidableEq, Inhabited

/-- The JSON text of a formula. -/
def json (f : Formula) : List Char := Json.quote f.chars

/-- The formula that a JSON value holds. -/
def ofJson (value : Json.Value) : Except JsonFault Formula :=
  match value.text? with
  | some source => (Formula.read {} source).mapError .format
  | none => .error .notText

/-- The formula that a JSON text writes. -/
def readJson (source : List Char) : Except JsonFault Formula :=
  match Json.Value.read? source with
  | some value => ofJson value
  | none => .error .notText

end Worksheet.Formula
