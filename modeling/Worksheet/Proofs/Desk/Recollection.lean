import Worksheet.Proofs.Desk.Refusal
import Worksheet.Proofs.Desk.Storage

/-!
# What a sheet remembers of its history

Of all that has been done to it, a sheet remembers two things: whether a cell has been set since
it was last in step with something outside, and the file that this was, if it was a file
(`Desk.recalls_after`).  A sheet is in step with what it has just been rebuilt from, loaded from
or saved to.

## Strategy

Seen from these two marks, every operation with its reply has one of three effects: it changes
the sheet, it settles it, or it leaves it alone (`Operation.effect`).  The last effect that
settles decides about the file, and whether a change is behind it decides about the mark, so the
run is followed by adding effects at the end (`Effect.stands_append_singleton`).

Typing in the entries of a snapshot changes the new sheet, too.  These changes are part of the one
operation that settles it, and the sheet has no file as long as they last.
-/

namespace Worksheet

/-! ## Effects -/

/-- What an operation does to the marks of a sheet. -/
inductive Effect where
  | changes
  /-- The sheet is in step with a file now, or with a snapshot that is in no file. -/
  | settles (file : Option String)
  | leaves
  deriving Repr, DecidableEq

/-- The effect of an operation that has been given a reply.  What is refused has none. -/
def Operation.effect : Operation → Except SheetError Reply → Effect
  | .enter .., .ok _ => .changes
  | .assign .., .ok _ => .changes
  | .rebuild .., .ok _ => .settles none
  | .load file _, .ok _ => .settles (some file)
  | .save file, .ok _ => .settles (some file)
  | .saveAgain, .ok (.file name) => .settles (some name)
  | _, _ => .leaves

namespace Effect

/-- Whether an effect is among some, the latest last, and nothing has been settled since. -/
def Stands (effect : Effect) (effects : List Effect) : Prop :=
  ∃ earlier later, effects = earlier ++ effect :: later ∧ ∀ file, settles file ∉ later

variable {effect last : Effect} {effects : List Effect}

theorem not_stands_nil : ¬ effect.Stands [] := by
  rintro ⟨earlier, later, heffects, -⟩
  simp at heffects

/-- The last effect stands, and those before it stand if it does not settle anything. -/
theorem stands_append_singleton :
    effect.Stands (effects ++ [last]) ↔
      effect = last ∨ effect.Stands effects ∧ ∀ file, last ≠ settles file := by
  constructor
  · rintro ⟨earlier, later, heffects, hlater⟩
    rcases List.eq_nil_or_concat' later with rfl | ⟨later, final, rfl⟩
    · obtain ⟨-, hlast⟩ := List.append_inj' heffects rfl
      exact Or.inl (List.cons.inj hlast).1.symm
    · rw [← List.cons_append, ← List.append_assoc] at heffects
      obtain ⟨rfl, hlast⟩ := List.append_inj' heffects rfl
      obtain rfl : last = final := (List.cons.inj hlast).1
      refine Or.inr ⟨⟨earlier, later, rfl, fun file hfile => ?_⟩, ?_⟩
      · exact hlater file (List.mem_append_left _ hfile)
      · rintro file rfl
        exact hlater file (List.mem_append_right _ (List.mem_singleton_self _))
  · rintro (rfl | ⟨⟨earlier, later, rfl, hlater⟩, hlast⟩)
    · exact ⟨effects, [], rfl, fun _ => List.not_mem_nil⟩
    · refine ⟨earlier, later ++ [last], by simp, fun file hfile => ?_⟩
      rcases List.mem_append.mp hfile with hfile | hfile
      · exact hlater file hfile
      · exact hlast file (List.mem_singleton.mp hfile).symm

/-- Whether an effect has made of the marks of one sheet those of another. -/
def Marks (before after : Sheet) : Effect → Prop
  | changes => after.modified = true ∧ after.file = before.file
  | settles file => after.modified = false ∧ after.file = file
  | leaves => after.modified = before.modified ∧ after.file = before.file

end Effect

namespace Sheet

variable {sheet before after : Sheet} {effect : Effect} {effects : List Effect}

/-- Whether the marks of a sheet are what some effects have made of them. -/
structure Remembers (sheet : Sheet) (effects : List Effect) : Prop where
  /-- A cell has been set since the sheet was last settled, or since it was new. -/
  modified_iff : sheet.modified = true ↔ Effect.changes.Stands effects
  /-- The sheet was last settled in this file. -/
  file_eq_some_iff : ∀ file, sheet.file = some file ↔ (Effect.settles (some file)).Stands effects

theorem remembers_empty (options : SheetOptions) : (empty options).Remembers [] where
  modified_iff := iff_of_false Bool.false_ne_true Effect.not_stands_nil
  file_eq_some_iff _ := iff_of_false (fun hfile => nomatch hfile) Effect.not_stands_nil

theorem Remembers.append_singleton (hbefore : before.Remembers effects)
    (hmarks : effect.Marks before after) : after.Remembers (effects ++ [effect]) where
  modified_iff := by
    rw [Effect.stands_append_singleton]
    cases effect with
    | changes => simp [hmarks.1]
    | settles file => simp [hmarks.1]
    | leaves => simp [hmarks.1, hbefore.modified_iff]
  file_eq_some_iff file := by
    rw [Effect.stands_append_singleton]
    cases effect with
    | changes => simp [hmarks.2, hbefore.file_eq_some_iff]
    | settles other => simp [hmarks.2, eq_comm]
    | leaves => simp [hmarks.2, hbefore.file_eq_some_iff]

/-! ## The marks that an edit and a reader leave -/

theorem file_place (name : String) (content : CellContent) :
    (sheet.place name content).sheet.file = sheet.file := by
  simp only [place]
  split <;> rfl

theorem file_edit (name : String) (given : Except ContentFault CellContent) :
    (sheet.edit name given).sheet.file = sheet.file := by
  unfold edit
  split
  · rfl
  · rfl
  · exact file_place _ _

theorem modified_edit (hlinks : sheet.links.Consistent) {name : String}
    {given : Except ContentFault CellContent} {order : List String}
    (hedit : (sheet.edit name given).result = .ok order) :
    (sheet.edit name given).sheet.modified = true := by
  rcases edit_cases hlinks name given with
    ⟨cause, hrefused⟩ | ⟨stored, accepted, found, -, -, -, haccepted⟩
  · rw [hrefused] at hedit
    cases hedit
  · rw [haccepted]
    rfl

theorem marks_of_ofSnapshot {snapshot : Snapshot} {options : SheetOptions}
    (hof : ofSnapshot snapshot options = .ok sheet) :
    sheet.modified = false ∧ sheet.file = none := by
  obtain ⟨-, filled, hfold, rfl⟩ := ofSnapshot_eq_ok_iff.mp hof
  have hstep : ∀ (sheet : Sheet) entry next, sheet.file = none →
      sheet.enterEntry entry = .ok next → next.file = none := by
    intro sheet entry next hfile hentry
    obtain ⟨order, hedit⟩ := enterEntry_eq_ok_iff.mp hentry
    have hkept : (sheet.enter entry.1 entry.2).sheet.file = sheet.file := file_edit entry.1 _
    rwa [hedit, hfile] at hkept
  have hfile : filled.file = none :=
    foldlM_keeps (P := fun sheet => sheet.file = none) hstep rfl hfold
  exact ⟨rfl, hfile⟩

theorem marks_of_load {folder : Folder} {file : String} {options : SheetOptions}
    (hload : load folder file options = .ok sheet) :
    sheet.modified = false ∧ sheet.file = some file := by
  obtain ⟨-, snapshot, rebuilt, -, -, hof, rfl⟩ := rebuilt_of_load hload
  exact ⟨(marks_of_ofSnapshot hof).1, rfl⟩

end Sheet

namespace Desk

variable {desk : Desk}

/-! ## What a save does -/

/-- Whether a desk has become another by writing its sheet to a file, and to no other file. -/
structure WrittenTo (file : String) (before after : Desk) : Prop where
  sheet_eq : after.sheet = { before.sheet with file := some file, modified := false }
  read_self : after.folder.read file = .ok before.sheet.snapshot.text.toUTF8
  read_eq : ∀ other, other ≠ file → after.folder.read other = before.folder.read other

theorem writtenTo_of_save {file : String} (hsave : (desk.save file).1 = .ok ()) :
    WrittenTo file desk (desk.save file).2 := by
  unfold save at hsave ⊢
  cases hwrite : desk.folder.writeText file desk.sheet.snapshot.text with
  | error fault =>
      rw [hwrite] at hsave
      cases hsave
  | ok folder =>
      exact ⟨rfl, Folder.read_of_writeText hwrite,
        fun other => Folder.read_of_writeText_of_ne hwrite⟩

theorem writtenTo_of_saveAgain {file : String} (hagain : desk.saveAgain.1 = .ok file) :
    desk.sheet.file = some file ∧ WrittenTo file desk desk.saveAgain.2 := by
  rcases desk.saveAgain_cases with ⟨-, hrefused⟩ | ⟨saved, hsaved, haccepted⟩
  · rw [hrefused] at hagain
    cases hagain
  · rw [haccepted] at hagain ⊢
    obtain ⟨_, hsave, rfl⟩ := map_eq_ok_iff.mp hagain
    exact ⟨hsaved, writtenTo_of_save hsave⟩

theorem WrittenTo.marks {file : String} {after : Desk} (hwritten : WrittenTo file desk after) :
    (Effect.settles (some file)).Marks desk.sheet after.sheet := by
  rw [hwritten.sheet_eq]
  exact ⟨rfl, rfl⟩

/-! ## The marks after an operation -/

/-- An operation that is accepted makes of the marks what its effect does. -/
theorem marks_perform_of_ok (hlinks : desk.sheet.links.Consistent) {operation : Operation}
    {reply : Reply} (hreply : (desk.perform operation).1 = .ok reply) :
    (operation.effect (.ok reply)).Marks desk.sheet (desk.perform operation).2.sheet := by
  cases operation with
  | enter name literal =>
      obtain ⟨order, horder, -⟩ := map_eq_ok_iff.mp hreply
      exact ⟨Sheet.modified_edit hlinks horder, Sheet.file_edit name _⟩
  | assign name content =>
      obtain ⟨order, horder, -⟩ := map_eq_ok_iff.mp hreply
      exact ⟨Sheet.modified_edit hlinks horder, Sheet.file_edit name _⟩
  | rebuild snapshot options => exact Sheet.marks_of_ofSnapshot (sheet_of_replace hreply)
  | load file options => exact Sheet.marks_of_load (sheet_of_replace hreply)
  | save file =>
      obtain ⟨_, hsave, -⟩ := map_eq_ok_iff.mp hreply
      exact (writtenTo_of_save hsave).marks
  | saveAgain =>
      obtain ⟨saved, hsaved, rfl⟩ := map_eq_ok_iff.mp hreply
      exact (writtenTo_of_saveAgain hsaved).2.marks
  | exchange folder => exact ⟨rfl, rfl⟩

theorem marks_perform (hlinks : desk.sheet.links.Consistent) (operation : Operation) :
    (operation.effect (desk.perform operation).1).Marks desk.sheet
      (desk.perform operation).2.sheet := by
  cases hreply : (desk.perform operation).1 with
  | error cause =>
      rw [perform_of_error hlinks hreply]
      cases operation <;> exact ⟨rfl, rfl⟩
  | ok reply => exact marks_perform_of_ok hlinks hreply

/-! ## Whole histories -/

/-- The effects of some operations, one after the other. -/
def effects (desk : Desk) (operations : List Operation) : List Effect :=
  operations.zipWith Operation.effect (desk.run operations).1

theorem effects_cons (operation : Operation) (operations : List Operation) :
    desk.effects (operation :: operations) =
      operation.effect (desk.perform operation).1 ::
        (desk.perform operation).2.effects operations := rfl

/-- What has been remembered so far and what is done next make up what is remembered then. -/
theorem remembers_after (desk : Desk) (hdesk : desk.sheet.Sound) {past : List Effect}
    (hpast : desk.sheet.Remembers past) (operations : List Operation) :
    (desk.after operations).sheet.Remembers (past ++ desk.effects operations) := by
  induction operations generalizing desk past with
  | nil => rwa [effects, List.zipWith_nil_left, List.append_nil]
  | cons operation operations ih =>
      have hnext := hpast.append_singleton (marks_perform hdesk.consistent operation)
      have hlast := ih _ (sound_perform hdesk operation) hnext
      rwa [List.append_assoc, List.singleton_append, ← effects_cons] at hlast

/-! ## Saving again -/

theorem saveAgain_eq_noFile_iff : desk.saveAgain.1 = .error .noFile ↔ desk.sheet.file = none := by
  rcases desk.saveAgain_cases with ⟨hnone, hrefused⟩ | ⟨file, hfile, hagain⟩
  · exact iff_of_true (congrArg Prod.fst hrefused) hnone
  · refine iff_of_false (fun hnoFile => ?_) (by simp [hfile])
    rw [hagain] at hnoFile
    have hsave := map_eq_error_iff.mp hnoFile
    rcases desk.save_cases file with ⟨fault, hrefused⟩ | ⟨folder, haccepted⟩
    · rw [hrefused] at hsave
      cases hsave
    · rw [haccepted] at hsave
      cases hsave

/-- Whether the sheet on a desk remembers what some effects have made of it, and acts on it. -/
structure Recalls (desk : Desk) (effects : List Effect) : Prop
    extends desk.sheet.Remembers effects where
  perform_of_error : ∀ operation cause, (desk.perform operation).1 = .error cause →
    (desk.perform operation).2 = desk
  saveAgain_eq_noFile_iff : desk.saveAgain.1 = .error .noFile ↔
    ∀ file, ¬ (Effect.settles (some file)).Stands effects
  writtenTo_of_saveAgain : ∀ file, desk.saveAgain.1 = .ok file →
    desk.sheet.file = some file ∧ WrittenTo file desk desk.saveAgain.2

/-- After every history, the sheet is marked as changed if and only if a cell has been set since
it was created, rebuilt, loaded or saved, whichever was last, and its file is the one that it was
last loaded from or saved to.  What is refused does not count.  It is saved again to that file and
to no other, and cannot be if there is none. -/
theorem recalls_after (options : SheetOptions) (folder : Folder) (history : List Operation) :
    ((opened options folder).after history).Recalls ((opened options folder).effects history) := by
  have hempty := Sheet.sound_empty options
  have hremembers : ((opened options folder).after history).sheet.Remembers
      ((opened options folder).effects history) :=
    (opened options folder).remembers_after hempty (Sheet.remembers_empty options) history
  have hsound := sound_after options folder history
  exact {
    toRemembers := hremembers
    perform_of_error := fun _ _ => Desk.perform_of_error hsound.consistent
    saveAgain_eq_noFile_iff := by
      rw [Desk.saveAgain_eq_noFile_iff, Option.eq_none_iff_forall_ne_some]
      exact forall_congr' fun file => not_congr (hremembers.file_eq_some_iff file)
    writtenTo_of_saveAgain := fun _ => Desk.writtenTo_of_saveAgain }

/-- The sheet is saved, refuses a circle and a save to a file that cannot be, and is changed. -/
theorem recalls_after_refusals :
    let history := [Operation.enter "A" "1", .save "s", .enter "A" "=A", .save "x/y",
      .assign "B" (.number 2)]
    let desk := (opened {} ∅).after history
    (opened {} ∅).effects history =
        [.changes, .settles (some "s"), .leaves, .leaves, .changes] ∧
      desk.sheet.modified = true ∧ desk.sheet.file = some "s" ∧
        WrittenTo "s" desk desk.saveAgain.2 := by
  intro history desk
  have heffects : (opened {} ∅).effects history =
      [.changes, .settles (some "s"), .leaves, .leaves, .changes] := by decide +kernel
  have hrecalls := recalls_after {} ∅ history
  rw [heffects] at hrecalls
  have hchanged : Effect.changes.Stands
      [.changes, .settles (some "s"), .leaves, .leaves, .changes] :=
    ⟨[.changes, .settles (some "s"), .leaves, .leaves], [], rfl, by simp⟩
  have hsaved : (Effect.settles (some "s")).Stands
      [.changes, .settles (some "s"), .leaves, .leaves, .changes] :=
    ⟨[.changes], [.leaves, .leaves, .changes], rfl, by simp⟩
  have hagain : desk.saveAgain.1 = .ok "s" := by decide +kernel
  exact ⟨heffects, hrecalls.modified_iff.mpr hchanged, (hrecalls.file_eq_some_iff "s").mpr hsaved,
    (hrecalls.writtenTo_of_saveAgain "s" hagain).2⟩

end Desk

end Worksheet
