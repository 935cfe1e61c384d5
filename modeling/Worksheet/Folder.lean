import Std.Data.ExtTreeMap

/-!
# Folders

A folder is a flat collection of files.  It has no folders inside it, so a name
that leads into one leads nowhere, and the empty name is the folder itself.

Files hold bytes.  Text is written as UTF-8, and a file is text if its bytes are
UTF-8.
-/

namespace Worksheet

/-- The reasons for which a file cannot be used. -/
inductive FolderFault where
  | notFound
  | isFolder
  | notText
  deriving Repr, DecidableEq, Inhabited

/-- A fault in words. -/
def FolderFault.message : FolderFault → String
  | notFound => "no such file"
  | isFolder => "not a file but a folder"
  | notText => "not a text"

/-- The files of a folder by name. -/
structure Folder where
  files : Std.ExtTreeMap String ByteArray

namespace Folder

/-- The folder without files. -/
def empty : Folder := ⟨∅⟩

instance : EmptyCollection Folder := ⟨empty⟩

instance : Inhabited Folder := ⟨empty⟩

/-- What keeps a file of this name from existing. -/
def nameFault? (name : String) : Option FolderFault :=
  if name.isEmpty then some .isFolder
  else if name.toList.contains '/' then some .notFound
  else none

/-- The bytes of a file. -/
def read (folder : Folder) (name : String) : Except FolderFault ByteArray :=
  match nameFault? name, folder.files[name]? with
  | some fault, _ => .error fault
  | none, none => .error .notFound
  | none, some bytes => .ok bytes

/-- The text of a file. -/
def readText (folder : Folder) (name : String) : Except FolderFault String := do
  match String.fromUTF8? (← folder.read name) with
  | some text => .ok text
  | none => .error .notText

/-- The folder with some bytes as a file, in place of any file of that name. -/
def write (folder : Folder) (name : String) (bytes : ByteArray) : Except FolderFault Folder :=
  match nameFault? name with
  | some fault => .error fault
  | none => .ok ⟨folder.files.insert name bytes⟩

/-- The folder with a text as a file. -/
def writeText (folder : Folder) (name text : String) : Except FolderFault Folder :=
  folder.write name text.toUTF8

/-- The folder without a file. -/
def delete (folder : Folder) (name : String) : Except FolderFault Folder :=
  (folder.read name).map fun _ => ⟨folder.files.erase name⟩

end Folder

end Worksheet
