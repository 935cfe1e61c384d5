import Std.Data.ExtTreeMap
import Worksheet.Json.Value

/-!
# Snapshots

A snapshot is what is kept of a sheet when it is put away: the literal of every
cell that is not empty, and a version tag that says which kind of sheet it was.

Its text is a JSON object with the version first and the cells behind it, in the
order of their names.  Reading accepts any order, skips fields that it does not
know, whatever they hold, and does without the cells.  Both the snapshot and a cell
may also be written as arrays of their fields in order.  A known field may not be
repeated; of a repeated cell the last one counts.

`Snapshot.readVersion?` looks at the version alone.  It knows no other field, so of
the array form it accepts only the one with a version and nothing behind it.
-/

namespace Worksheet

/-- The literals of a sheet by cell, with a version tag. -/
@[ext]
structure Snapshot where
  version : String := ""
  cells : Std.ExtTreeMap String String := ∅

namespace Snapshot

open Json (Value quote)

instance : Inhabited Snapshot := ⟨{}⟩

/-- Gives a cell a literal. -/
def insert (snapshot : Snapshot) (name literal : String) : Snapshot :=
  { snapshot with cells := snapshot.cells.insert name literal }

/-- The literal of a cell. -/
def get? (snapshot : Snapshot) (name : String) : Option String := snapshot.cells[name]?

/-- The cells with their literals in the order of their names. -/
def toList (snapshot : Snapshot) : List (String × String) := snapshot.cells.toList

/-- Two snapshots are the same if their versions and their cells are. -/
instance : BEq Snapshot :=
  ⟨fun first second => first.version == second.version && first.toList == second.toList⟩

/-! ## Writing -/

/-- The lines of one cell, without the end of the last. -/
def cellChars (cell : String × String) : List Char :=
  "    ".toList ++ quote cell.1.toList ++ ": \x7b\n      \"contents\": ".toList ++
    quote cell.2.toList ++ "\n    \x7d".toList

/-- The object of the cells. -/
def cellsChars : List (String × String) → List Char
  | [] => ['{', '}']
  | first :: rest =>
      '{' :: '\n' :: cellChars first ++ rest.flatMap (fun cell => ',' :: '\n' :: cellChars cell) ++
        "\n  \x7d".toList

/-- The text of a snapshot. -/
def chars (snapshot : Snapshot) : List Char :=
  "\x7b\n  \"version\": ".toList ++ quote snapshot.version.toList ++ ",\n  \"cells\": ".toList ++
    cellsChars snapshot.toList ++ "\n\x7d\n".toList

/-- The text of a snapshot as a string. -/
def text (snapshot : Snapshot) : String := String.ofList snapshot.chars

/-! ## Reading -/

/-- The literal that the value of a cell holds. -/
def contentsOf? : Value → Option String
  | .object fields =>
      if Value.areNamed fields then
        match Value.fieldsNamed "contents" fields with
        | [contents] => contents.text?
        | _ => none
      else none
  | .array [contents] => contents.text?
  | _ => none

/-- The cells that a value holds. -/
def cellsOf? : Value → Option (Std.ExtTreeMap String String)
  | .object fields =>
      fields.foldlM (fun cells (name, value) => do
        pure (cells.insert (← name) (← contentsOf? value))) ∅
  | _ => none

/-- The snapshot that a value holds. -/
def ofValue? : Value → Option Snapshot
  | .object fields =>
      if Value.areNamed fields then
        match Value.fieldsNamed "version" fields, Value.fieldsNamed "cells" fields with
        | [version], [] => version.text?.map fun version => { version }
        | [version], [cells] => do pure { version := ← version.text?, cells := ← cellsOf? cells }
        | _, _ => none
      else none
  | .array [version] => version.text?.map fun version => { version }
  | .array [version, cells] => do pure { version := ← version.text?, cells := ← cellsOf? cells }
  | _ => none

/-- The version that a value holds, whatever else there is in it. -/
def versionOf? : Value → Option String
  | .object fields =>
      if Value.areNamed fields then
        match Value.fieldsNamed "version" fields with
        | [version] => version.text?
        | _ => none
      else none
  | .array [version] => version.text?
  | _ => none

/-- The snapshot that a text writes. -/
def read? (source : String) : Option Snapshot := (Value.read? source.toList).bind ofValue?

/-- The version of the snapshot that a text writes. -/
def readVersion? (source : String) : Option String := (Value.read? source.toList).bind versionOf?

end Snapshot

end Worksheet
