import Worksheet.Name.Stock
import Worksheet.Proofs.Cell.Literal
import Worksheet.Proofs.Desk.History

/-!
# The literals of a sheet

Whatever has been done at a desk, the literal of a cell stands for what the cell holds, read
without any rules.  The exception are texts that spell a number.  They cannot be typed in, but
a sheet adopts them when they come ready-made, and then they read back as that number
(`Desk.read_literal_after`).

Contents get into a sheet by being typed in or by being adopted, and stay there as they are
(`Sheet.lasting_contents`).
-/

namespace Worksheet

/-! ## Contents can be told apart -/

instance : DecidableEq Formula := fun f g =>
  decidable_of_iff (f.tokens = g.tokens) Formula.ext_iff.symm

deriving instance DecidableEq for CellContent

/-! ## Where contents come from -/

namespace Sheet

variable {sheet : Sheet}

/-- What a cell holds after an edit is the content of the edit, or was there before. -/
theorem content?_edit_cases (hlinks : sheet.links.Consistent) {name other : String}
    {content : Except ContentFault CellContent} {found : CellContent}
    (hfound : (sheet.edit name content).sheet.cells.content? other = some found) :
    content = .ok found ∨ sheet.cells.content? other = some found := by
  rcases edit_cases hlinks name content with
    ⟨cause, hedit⟩ | ⟨stored, accepted, order, -, hcontent, -, hedit⟩
  · rw [hedit] at hfound
    exact Or.inr hfound
  · rw [hedit] at hfound
    rcases CellTable.content?_set_cases hfound with ⟨-, rfl, -⟩ | hbefore
    · exact Or.inl hcontent
    · exact Or.inr hbefore

/-- What holds of everything that is typed in or adopted holds of everything in a sheet. -/
theorem lasting_contents {P : CellContent → Prop}
    (henter : ∀ rules literal content, CellContent.enter rules literal = .ok content → P content)
    (hadopt : ∀ rules given content, CellContent.adopt rules given = .ok content → P content) :
    Lasting fun sheet =>
      sheet.Sound ∧ ∀ name content, sheet.cells.content? name = some content → P content where
  empty options := by
    refine ⟨sound_empty options, fun name content hcontent => ?_⟩
    simp [empty, CellTable.content?_empty] at hcontent
  enter sheet hsheet name literal := by
    obtain ⟨hsound, hcontents⟩ := hsheet
    refine ⟨hsound.enter name literal, fun other found hfound => ?_⟩
    rcases content?_edit_cases hsound.consistent hfound with hnew | hbefore
    · exact henter _ _ _ hnew
    · exact hcontents other found hbefore
  assign sheet hsheet name given := by
    obtain ⟨hsound, hcontents⟩ := hsheet
    refine ⟨hsound.assign name given, fun other found hfound => ?_⟩
    rcases content?_edit_cases hsound.consistent hfound with hnew | hbefore
    · exact hadopt _ _ _ hnew
    · exact hcontents other found hbefore
  marked sheet hsheet file modified := ⟨hsheet.1.marked file modified, hsheet.2⟩

end Sheet

/-! ## Literals read back -/

namespace Desk

/-- After every history, the literal of a cell reads back as what the cell holds, if and only
if that is no text that spells a number.  Such a text reads back as the number. -/
theorem read_literal_after (options : SheetOptions) (folder : Folder) (history : List Operation)
    {name : String} {content : CellContent}
    (hcontent : ((opened options folder).after history).sheet.cells.content? name =
      some content) :
    (CellContent.read {} content.literal = .ok content ↔ ¬ content.SpellsNumber) ∧
      (content.SpellsNumber →
        ∃ value, CellContent.read {} content.literal = .ok (.number value)) := by
  -- The rules of the sheet may change with every load, so contents are read without any.
  have hlasting : Sheet.Lasting fun sheet => sheet.Sound ∧ ∀ name content,
      sheet.cells.content? name = some content → content.ReadsBack {} ∨ content.SpellsNumber :=
    Sheet.lasting_contents
      (fun _ _ _ henter => Or.inl (CellContent.readsBack_without_rules_of_enter henter))
      fun _ _ _ hadopt => CellContent.readsBack_or_spellsNumber_of_adopt hadopt
  have hback := (hlasting.after options folder history).2 name content hcontent
  exact ⟨CellContent.read_literal_eq_ok_iff hback, fun hspells => hspells.exists_read_literal {}⟩

/-- A formula that was built with a name of its own is held under the stored name, and read
back from there. -/
theorem read_literal_after_adoption :
    let options : SheetOptions := { rules := .stock (.truncate 2) .all }
    let given : Formula := ⟨[.name "Total", .operator .times, .number 2.5], by decide⟩
    let held : Formula := ⟨[.name "To", .operator .times, .number 2.5], by decide⟩
    let sheet := ((opened options ∅).after [.assign "Area" (.formula given)]).sheet
    sheet.cells.content? "Ar" = some (.formula held) ∧
      CellContent.read {} "=To*2.5" = .ok (.formula held) := by
  intro options given held sheet
  have hcontent : sheet.cells.content? "Ar" = some (.formula held) := by decide +kernel
  have hliteral : (CellContent.formula held).literal = "=To*2.5" := by decide +kernel
  refine ⟨hcontent, ?_⟩
  rw [← hliteral]
  exact (read_literal_after options ∅ _ hcontent).1.mpr id

/-- The text `12` is held when it comes ready-made, and reads back as the number. -/
theorem read_literal_of_numeral :
    let sheet := ((opened {} ∅).after [.assign "A1" (.text "12")]).sheet
    sheet.cells.content? "A1" = some (.text "12") ∧
      CellContent.read {} (CellContent.text "12").literal = .ok (.number 12) ∧
      CellContent.read {} (CellContent.text "12").literal ≠ .ok (.text "12") := by
  intro sheet
  exact ⟨by decide +kernel, by decide +kernel, by decide +kernel⟩

end Desk

end Worksheet
