import Worksheet.Proofs.Except
import Worksheet.Proofs.Sheet.Soundness
import Worksheet.Sheet.File

/-!
# Histories of a desk

A desk is opened with an empty sheet and then worked at: cells are typed in or given
ready-made contents, sheets are rebuilt from snapshots, loaded and saved, and between
two operations others may do anything to the files.  `Desk.perform` is one operation
with its reply, and `Desk.run` is a list of them.

What new sheets have and edits keep, the sheet on a desk has at every moment of every
history (`Sheet.Lasting.after`).  In particular it is sound (`Desk.sound_after`).
-/

namespace Worksheet

/-! ## Operations -/

/-- What may be done at a desk. -/
inductive Operation where
  /-- Types a literal into a cell. -/
  | enter (name literal : String)
  /-- Gives a cell a content that is ready-made. -/
  | assign (name : String) (content : CellContent)
  /-- Replaces the sheet by the one that a snapshot was taken of. -/
  | rebuild (snapshot : Snapshot) (options : SheetOptions)
  /-- Replaces the sheet by the one that was saved to a file. -/
  | load (file : String) (options : SheetOptions)
  | save (file : String)
  | saveAgain
  /-- Someone else leaves the folder with other files. -/
  | exchange (folder : Folder)

/-- What an operation gives back when it succeeds. -/
inductive Reply where
  | order (cells : List String)
  | file (name : String)
  | done
  deriving Repr, DecidableEq

namespace Desk

/-- A desk with a new sheet. -/
def opened (options : SheetOptions) (folder : Folder) : Desk := ⟨Sheet.empty options, folder⟩

variable (desk : Desk)

/-- The desk after an edit of its sheet. -/
def accept (edit : Edit) : Except SheetError Reply × Desk :=
  (edit.result.map .order, { desk with sheet := edit.sheet })

/-- The desk with a sheet in place of its own, if there is one. -/
def replace : Except SheetError Sheet → Except SheetError Reply × Desk
  | .ok sheet => (.ok .done, { desk with sheet })
  | .error cause => (.error cause, desk)

/-- One operation: its reply and the desk afterwards. -/
def perform : Operation → Except SheetError Reply × Desk
  | .enter name literal => desk.accept (desk.sheet.enter name literal)
  | .assign name content => desk.accept (desk.sheet.assign name content)
  | .rebuild snapshot options => desk.replace (Sheet.ofSnapshot snapshot options)
  | .load file options => desk.replace (Sheet.load desk.folder file options)
  | .save file => ((desk.save file).1.map fun _ => .done, (desk.save file).2)
  | .saveAgain => (desk.saveAgain.1.map .file, desk.saveAgain.2)
  | .exchange folder => (.ok .done, { desk with folder })

/-- Operations one after the other: their replies and the desk afterwards. -/
def run (desk : Desk) : List Operation → List (Except SheetError Reply) × Desk
  | [] => ([], desk)
  | operation :: operations =>
      let (reply, next) := desk.perform operation
      let (replies, last) := next.run operations
      (reply :: replies, last)

/-- The desk after some operations. -/
def after (operations : List Operation) : Desk := (desk.run operations).2

theorem run_cons (operation : Operation) (operations : List Operation) :
    desk.run (operation :: operations) =
      ((desk.perform operation).1 :: ((desk.perform operation).2.run operations).1,
        (desk.perform operation).2.after operations) := rfl

theorem after_cons (operation : Operation) (operations : List Operation) :
    desk.after (operation :: operations) = (desk.perform operation).2.after operations := rfl

end Desk

/-! ## What operations keep -/

namespace Desk

theorem save_cases (desk : Desk) (file : String) :
    (∃ fault, desk.save file = (.error (.folder fault), desk)) ∨
      ∃ folder, desk.save file =
        (.ok (), ⟨{ desk.sheet with file := some file, modified := false }, folder⟩) := by
  unfold save
  cases desk.folder.writeText file desk.sheet.snapshot.text with
  | ok folder => exact Or.inr ⟨folder, rfl⟩
  | error fault => exact Or.inl ⟨fault, rfl⟩

/-- To save again is to save to the file that the sheet remembers. -/
theorem saveAgain_cases (desk : Desk) :
    desk.sheet.file = none ∧ desk.saveAgain = (.error .noFile, desk) ∨
      ∃ file, desk.sheet.file = some file ∧
        desk.saveAgain = ((desk.save file).1.map fun _ => file, (desk.save file).2) := by
  unfold saveAgain
  cases hfile : desk.sheet.file with
  | none => exact Or.inl ⟨rfl, rfl⟩
  | some file => exact Or.inr ⟨file, rfl, rfl⟩

end Desk

namespace Sheet

/-! ## How a sheet is rebuilt -/

theorem enterEntry_eq_ok_iff {sheet next : Sheet} {entry : String × String} :
    sheet.enterEntry entry = .ok next ↔
      ∃ order, sheet.enter entry.1 entry.2 = ⟨.ok order, next⟩ := by
  unfold enterEntry
  constructor
  · intro hentry
    split at hentry
    · rename_i order edited heq
      cases hentry
      exact ⟨order, heq⟩
    · cases hentry
    · cases hentry
  · rintro ⟨order, hedit⟩
    rw [hedit]

/-- A sheet that is rebuilt is a new sheet into which all entries have been typed. -/
theorem ofSnapshot_eq_ok_iff {snapshot : Snapshot} {options : SheetOptions} {sheet : Sheet} :
    ofSnapshot snapshot options = .ok sheet ↔ snapshot.version = options.version ∧
      ∃ filled, snapshot.toList.foldlM enterEntry (empty options) = .ok filled ∧
        { filled with modified := false } = sheet := by
  unfold ofSnapshot
  by_cases hversion : snapshot.version = options.version
  · rw [if_pos hversion, bind_eq_ok_iff, and_iff_right hversion]
    apply exists_congr
    intro filled
    apply and_congr_right
    intro _
    exact ⟨Except.ok.inj, congrArg Except.ok⟩
  · rw [if_neg hversion]
    refine iff_of_false (fun hof => ?_) fun hof => hversion hof.1
    cases hof

/-- A sheet that is loaded is rebuilt from the snapshot in the file. -/
theorem rebuilt_of_load {folder : Folder} {file : String} {options : SheetOptions}
    {sheet : Sheet} (hload : load folder file options = .ok sheet) :
    ∃ source snapshot rebuilt, folder.readText file = .ok source ∧
      Snapshot.read? source = some snapshot ∧ ofSnapshot snapshot options = .ok rebuilt ∧
        { rebuilt with file := some file } = sheet := by
  obtain ⟨source, hfile, hrest⟩ := bind_eq_ok_iff.mp hload
  obtain ⟨rebuilt, htext, hsheet⟩ := bind_eq_ok_iff.mp hrest
  have hsource : folder.readText file = .ok source := by
    unfold fileText at hfile
    cases hread : folder.readText file with
    | error fault =>
        rw [hread] at hfile
        cases hfile
    | ok characters =>
        rw [hread] at hfile
        exact congrArg Except.ok (Except.ok.inj hfile)
  unfold ofText at htext
  split at htext
  · rename_i snapshot hread
    exact ⟨source, snapshot, rebuilt, hsource, hread, htext, Except.ok.inj hsheet⟩
  · cases htext

/-! ## What lasts -/

/-- A property of sheets that new sheets have and that edits keep, and that does not speak
of the file and of the mark of a change. -/
structure Lasting (P : Sheet → Prop) : Prop where
  empty : ∀ options, P (.empty options)
  enter : ∀ sheet, P sheet → ∀ name literal, P (sheet.enter name literal).sheet
  assign : ∀ sheet, P sheet → ∀ name content, P (sheet.assign name content).sheet
  marked : ∀ sheet, P sheet → ∀ file modified, P { sheet with file, modified }

namespace Lasting

variable {P : Sheet → Prop} {sheet : Sheet} {desk : Desk}

theorem enterEntry (hlasting : Lasting P) {next : Sheet} {entry : String × String}
    (hsheet : P sheet) (hentry : sheet.enterEntry entry = .ok next) : P next := by
  obtain ⟨order, hedit⟩ := enterEntry_eq_ok_iff.mp hentry
  have hnext := hlasting.enter sheet hsheet entry.1 entry.2
  rwa [hedit] at hnext

theorem ofSnapshot (hlasting : Lasting P) {snapshot : Snapshot} {options : SheetOptions}
    (hof : Sheet.ofSnapshot snapshot options = .ok sheet) : P sheet := by
  obtain ⟨-, filled, hfold, rfl⟩ := ofSnapshot_eq_ok_iff.mp hof
  have hfilled : P filled :=
    foldlM_keeps (fun _ _ _ hsheet hentry => hlasting.enterEntry hsheet hentry)
      (hlasting.empty options) hfold
  exact hlasting.marked filled hfilled filled.file false

theorem load (hlasting : Lasting P) {folder : Folder} {file : String} {options : SheetOptions}
    (hload : Sheet.load folder file options = .ok sheet) : P sheet := by
  obtain ⟨-, snapshot, rebuilt, -, -, hof, rfl⟩ := rebuilt_of_load hload
  exact hlasting.marked rebuilt (hlasting.ofSnapshot hof) (some file) rebuilt.modified

theorem save (hlasting : Lasting P) (hdesk : P desk.sheet) (file : String) :
    P (desk.save file).2.sheet := by
  rcases desk.save_cases file with ⟨fault, hsave⟩ | ⟨folder, hsave⟩
  · rw [hsave]
    exact hdesk
  · rw [hsave]
    exact hlasting.marked desk.sheet hdesk (some file) false

theorem replace (hdesk : P desk.sheet) {outcome : Except SheetError Sheet}
    (houtcome : ∀ sheet, outcome = .ok sheet → P sheet) : P (desk.replace outcome).2.sheet := by
  cases outcome with
  | ok sheet => exact houtcome sheet rfl
  | error cause => exact hdesk

/-- Every operation keeps what lasts. -/
theorem perform (hlasting : Lasting P) (hdesk : P desk.sheet) (operation : Operation) :
    P (desk.perform operation).2.sheet := by
  cases operation with
  | enter name literal => exact hlasting.enter desk.sheet hdesk name literal
  | assign name content => exact hlasting.assign desk.sheet hdesk name content
  | rebuild snapshot options => exact replace hdesk fun _ hof => hlasting.ofSnapshot hof
  | load file options => exact replace hdesk fun _ hload => hlasting.load hload
  | save file => exact hlasting.save hdesk file
  | saveAgain =>
      change P desk.saveAgain.2.sheet
      rcases desk.saveAgain_cases with ⟨-, hagain⟩ | ⟨file, -, hagain⟩
      · rw [hagain]
        exact hdesk
      · rw [hagain]
        exact hlasting.save hdesk file
  | exchange folder => exact hdesk

/-- What lasts holds after every history. -/
theorem after (hlasting : Lasting P) (options : SheetOptions) (folder : Folder)
    (history : List Operation) : P ((Desk.opened options folder).after history).sheet := by
  have hkeep : ∀ desk : Desk, P desk.sheet → P (desk.after history).sheet := by
    induction history with
    | nil => exact fun _ hdesk => hdesk
    | cons operation history ih => exact fun desk hdesk => ih _ (hlasting.perform hdesk operation)
  exact hkeep _ (hlasting.empty options)

end Lasting

/-! ## Every sheet is sound -/

theorem lasting_sound : Lasting Sound where
  empty := sound_empty
  enter _ hsheet := hsheet.enter
  assign _ hsheet := hsheet.assign
  marked _ hsheet := hsheet.marked

theorem Sound.of_enterEntry {sheet next : Sheet} {entry : String × String}
    (hsheet : sheet.Sound) (hentry : sheet.enterEntry entry = .ok next) : next.Sound :=
  lasting_sound.enterEntry hsheet hentry

end Sheet

namespace Desk

theorem sound_perform {desk : Desk} (hdesk : desk.sheet.Sound) (operation : Operation) :
    (desk.perform operation).2.sheet.Sound :=
  Sheet.lasting_sound.perform hdesk operation

/-- Every history leaves a sound sheet. -/
theorem sound_after (options : SheetOptions) (folder : Folder) (history : List Operation) :
    ((opened options folder).after history).sheet.Sound :=
  Sheet.lasting_sound.after options folder history

end Desk

end Worksheet
