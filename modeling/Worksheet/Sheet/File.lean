import Worksheet.Sheet
import Worksheet.Snapshot

/-!
# Putting sheets away

A sheet is put away as a snapshot and rebuilt from one by typing in its entries in
the order of their names.  The links and the values follow from the contents, so a
snapshot holds neither.

A `Desk` is a sheet with the folder it is saved to.  The sheet remembers the file
it was last loaded from or saved to; a save that fails changes neither the sheet nor
the folder.
-/

namespace Worksheet

namespace Sheet

/-! ## Snapshots of a sheet -/

/-- The literals of a sheet under its version. -/
def snapshot (sheet : Sheet) : Snapshot where
  version := sheet.options.version
  cells := sheet.cells.cells.map fun _ content => content.literal

/-- Types an entry of a snapshot into a sheet.  A literal that is refused is put down
to the entry. -/
def enterEntry (sheet : Sheet) (entry : String × String) : Except SheetError Sheet :=
  match sheet.enter entry.1 entry.2 with
  | ⟨.ok _, sheet⟩ => .ok sheet
  | ⟨.error (.invalidContent fault), _⟩ => .error (.badEntry entry.1 fault)
  | ⟨.error cause, _⟩ => .error cause

/-- The sheet that a snapshot was taken of.  The snapshot has to have the version of
the options. -/
def ofSnapshot (snapshot : Snapshot) (options : SheetOptions) : Except SheetError Sheet :=
  if snapshot.version = options.version then do
    let sheet ← snapshot.toList.foldlM enterEntry (empty options)
    pure { sheet with modified := false }
  else .error (.versionMismatch options.version snapshot.version)

/-- The sheet that a text writes. -/
def ofText (source : String) (options : SheetOptions) : Except SheetError Sheet :=
  match Snapshot.read? source with
  | some snapshot => ofSnapshot snapshot options
  | none => .error .notSnapshot

/-! ## Files -/

/-- The text of a file. -/
def fileText (folder : Folder) (file : String) : Except SheetError String :=
  (folder.readText file).mapError .folder

/-- The sheet that was saved to a file. -/
def load (folder : Folder) (file : String) (options : SheetOptions) : Except SheetError Sheet := do
  let sheet ← ofText (← fileText folder file) options
  pure { sheet with file := some file }

/-- The version of the sheet that was saved to a file.  The cells are not looked
at. -/
def savedVersion (folder : Folder) (file : String) : Except SheetError String := do
  match Snapshot.readVersion? (← fileText folder file) with
  | some version => pure version
  | none => .error .notSnapshot

end Sheet

/-- A sheet and the folder it is saved to. -/
structure Desk where
  sheet : Sheet
  folder : Folder

namespace Desk

instance : Inhabited Desk := ⟨⟨default, ∅⟩⟩

/-- Saves the sheet to a file, which it remembers. -/
def save (desk : Desk) (file : String) : Except SheetError Unit × Desk :=
  match desk.folder.writeText file desk.sheet.snapshot.text with
  | .ok folder => (.ok (), ⟨{ desk.sheet with file := some file, modified := false }, folder⟩)
  | .error fault => (.error (.folder fault), desk)

/-- Saves the sheet to the file that it remembers, and names that file. -/
def saveAgain (desk : Desk) : Except SheetError String × Desk :=
  match desk.sheet.file with
  | some file =>
      let (result, desk) := desk.save file
      (result.map fun _ => file, desk)
  | none => (.error .noFile, desk)

end Desk

end Worksheet
