import Worksheet.Cell.Table
import Worksheet.Sheet.Error

/-!
# Sheets

A sheet holds the contents of its cells, the links between them and the value of
every cell that is not empty.  The three are kept in step: a link leads to each
formula from each cell that it mentions, and each value is what its content gives
when the names in it are looked up among the values.

`Sheet.edit` is the only way to change a cell.  It links the cell to what its new
content mentions, sets the content, and asks for the order of recomputation.  If
there is one, the cells in it are recomputed from first to last, each from values
that are up to date by then.  If the links run in a circle, the links are put back
at their places and the content is restored.  Values are touched only after this
is decided.  An edit therefore gives back a sheet in either case, and a refused edit
gives back the sheet as it was.
-/

namespace Worksheet

/-! ## Sheets and their options -/

/-- What a sheet is set up with: the rules for its names, and the version tag of its
snapshots. -/
structure SheetOptions where
  rules : NameRules := {}
  version : String := "default"

instance : Inhabited SheetOptions := ⟨{}⟩

/-- A sheet of cells.  `file` is where it was last loaded from or saved to, and
`modified` says whether it has changed since. -/
structure Sheet where
  options : SheetOptions
  cells : CellTable := ∅
  links : Links := ∅
  values : Std.ExtTreeMap String CellValue := ∅
  file : Option String := none
  modified : Bool := false

instance : Inhabited Sheet := ⟨{ options := {} }⟩

/-- The outcome of an edit: the order in which cells were recomputed or the reason
why the edit was refused, and the sheet afterwards. -/
structure Edit where
  result : Except SheetError (List String)
  sheet : Sheet

/-- The names that a content mentions. -/
def CellContent.names : CellContent → List String
  | .formula f => f.names
  | .number _ | .text _ => []

namespace Sheet

/-- The sheet without cells. -/
def empty (options : SheetOptions) : Sheet := { options }

variable (sheet : Sheet)

/-- The stored form of a name on a sheet. -/
def resolve (name : String) : Except SheetError String :=
  match sheet.options.rules.resolve name with
  | some stored => .ok stored
  | none => .error (.invalidName name)

/-! ## Queries -/

/-- The content of a cell.  A cell that holds nothing has the empty text. -/
def content (name : String) : Except SheetError CellContent :=
  (sheet.resolve name).map fun stored => (sheet.cells.content? stored).getD (.text "")

/-- What a cell shows.  A cell that holds nothing shows the empty text. -/
def value (name : String) : Except SheetError CellValue :=
  (sheet.resolve name).map fun stored => sheet.values.getD stored (.text "")

/-- The names of the cells that are not empty, in order. -/
def names : List String := sheet.cells.names

/-- The cells with a formula that mentions a cell. -/
def directDependents (name : String) : Except SheetError (List String) :=
  (sheet.resolve name).map sheet.links.dependents

/-- The order in which cells would be recomputed if some cells changed. -/
def recomputeOrder (names : List String) : Except SheetError (List String) := do
  let stored ← names.mapM sheet.resolve
  (sheet.links.recomputeOrder stored).mapError .circular

/-! ## Recomputation -/

/-- The number of a cell among some values. -/
def numberOf? (values : Std.ExtTreeMap String CellValue) (name : String) : Option Float :=
  values[name]?.bind CellValue.number?

/-- The values after one cell has been computed anew. -/
def refresh (cells : CellTable) (values : Std.ExtTreeMap String CellValue) (name : String) :
    Std.ExtTreeMap String CellValue :=
  match cells.content? name with
  | some content => values.insert name (content.value (numberOf? values))
  | none => values.erase name

/-- Computes some cells anew, one after the other. -/
def recompute (order : List String) : Sheet :=
  { sheet with values := order.foldl (refresh sheet.cells) sheet.values }

/-! ## Edits -/

/-- Makes a cell hold a content, and undoes it if the cell would use itself. -/
def place (name : String) (content : CellContent) : Edit :=
  let saved := sheet.links.savePrecedents name
  let (previous, cells) := sheet.cells.set name content
  let links := sheet.links.replacePrecedents name content.names
  let changed := { sheet with cells, links }
  match links.recomputeOrder [name] with
  | .ok order => ⟨.ok order, { changed.recompute order with modified := true }⟩
  | .error circle =>
      ⟨.error (.circular circle),
        { changed with
          cells := cells.restore name previous
          links := links.restorePrecedents saved }⟩

/-- Changes a cell to a content, if its name resolves and there is a content. -/
def edit (name : String) (content : Except ContentFault CellContent) : Edit :=
  match sheet.resolve name, content with
  | .error cause, _ => ⟨.error cause, sheet⟩
  | .ok _, .error fault => ⟨.error (.invalidContent fault), sheet⟩
  | .ok stored, .ok content => sheet.place stored content

/-- Types a literal into a cell. -/
def enter (name literal : String) : Edit :=
  sheet.edit name (CellContent.enter sheet.options.rules literal)

/-- Gives a cell a content that is ready-made. -/
def assign (name : String) (content : CellContent) : Edit :=
  sheet.edit name (content.adopt sheet.options.rules)

end Sheet

end Worksheet
