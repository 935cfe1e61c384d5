import Worksheet.Cell.Adoption
import Worksheet.Folder
import Worksheet.Links.Order

/-!
# What a sheet may refuse

Every failure of an operation on a sheet is one of these causes.  A formula that
shows an error is no failure: that is the value of its cell.
-/

namespace Worksheet

/-- The reasons for which an operation on a sheet fails. -/
inductive SheetError where
  /-- A name that does not resolve, as it was given. -/
  | invalidName (given : String)
  /-- A content that the sheet cannot hold. -/
  | invalidContent (fault : ContentFault)
  /-- A formula that would use its own cell. -/
  | circular (circle : CircularReference)
  /-- A snapshot of another kind of sheet. -/
  | versionMismatch (expected found : String)
  /-- An entry of a snapshot with a literal that the sheet cannot hold. -/
  | badEntry (name : String) (fault : ContentFault)
  /-- A sheet that has neither been loaded nor saved. -/
  | noFile
  /-- A file that cannot be used. -/
  | folder (fault : FolderFault)
  /-- A text that writes no snapshot. -/
  | notSnapshot
  deriving Repr, DecidableEq, Inhabited

/-- A failure in words. -/
def SheetError.message : SheetError → String
  | invalidName given => s!"Invalid cell name: {given}"
  | invalidContent fault => fault.message
  | circular circle => circle.message
  | versionMismatch expected found => s!"Version mismatch: expected {expected}, found {found}"
  | badEntry name fault => s!"Bad snapshot entry for {name}: {fault.message}"
  | noFile => "No file path set"
  | folder fault => s!"IO error: {fault.message}"
  | notSnapshot => "JSON error: not a snapshot"

end Worksheet
