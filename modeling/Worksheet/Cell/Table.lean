import Std.Data.ExtTreeMap
import Worksheet.Cell.Content

/-!
# The table of cells

A `CellTable` holds the contents of the cells that are not empty, in the order of
their names.  Names are ordered by code point.

Setting a cell gives back what it held before, so that the caller can restore it.
To set the empty text is to clear the cell; `restore` puts back exactly what it is
handed.
-/

namespace Worksheet

/-- The contents of the cells of a sheet by name. -/
structure CellTable where
  cells : Std.ExtTreeMap String CellContent

namespace CellTable

/-- The table without cells. -/
def empty : CellTable := ⟨∅⟩

instance : EmptyCollection CellTable := ⟨empty⟩

instance : Inhabited CellTable := ⟨empty⟩

variable (table : CellTable)

/-- The content of a cell, if it has one. -/
def content? (name : String) : Option CellContent := table.cells[name]?

/-- Makes a cell hold what is given, or nothing. -/
def restore (name : String) : Option CellContent → CellTable
  | some content => ⟨table.cells.insert name content⟩
  | none => ⟨table.cells.erase name⟩

/-- Sets a cell, or clears it if the content is empty.  The first component is what
the cell held before. -/
def set (name : String) (content : CellContent) : Option CellContent × CellTable :=
  (table.content? name, table.restore name (if content.isEmpty then none else some content))

/-- What a cell shows, where `lookup` gives the numbers of names.  A cell without
content shows the empty text. -/
def value (name : String) (lookup : String → Option Float) : CellValue :=
  match table.content? name with
  | some content => content.value lookup
  | none => .text ""

/-- The names of the cells in order. -/
def names : List String := table.cells.keys

/-- The cells with their contents, in the order of their names. -/
def toList : List (String × CellContent) := table.cells.toList

/-- The number of cells. -/
def size : Nat := table.cells.size

/-- Whether there is no cell. -/
def isEmpty : Bool := table.cells.isEmpty

end CellTable

end Worksheet
