import Worksheet.Proofs.Cell.Scratch
import Worksheet.Proofs.Desk.History

/-!
# Values do not remember how they came about

A sheet recomputes only what an edit may have changed, from values that it has kept.
Whatever has been done at a desk, the values are those that the contents have from
scratch (`getElem?_values_after`), and so two desks with the same contents show the
same.
-/

namespace Worksheet

namespace Sheet

variable {sheet : Sheet}

theorem Linked.wellFounded_mentionedBy (hlinked : sheet.Linked) :
    WellFounded sheet.cells.MentionedBy := by
  refine CellTable.wellFounded_mentionedBy fun name hcircle => hlinked.acyclic name ?_
  rwa [hlinked.mentionedBy_eq] at hcircle

/-- The kept values, with the empty text for a cell that has none, obey the recursion
from scratch. -/
theorem Sound.getD_values_eq_value (hsheet : sheet.Sound) (name : String) :
    sheet.values.getD name (.text "") =
      sheet.cells.value name fun other => (sheet.values.getD other (.text "")).number? := by
  have hnumber : numberOf? sheet.values =
      fun other => (sheet.values.getD other (.text "")).number? := by
    funext other
    rw [numberOf?, Std.ExtTreeMap.getD_eq_getD_getElem?]
    cases sheet.values[other]? <;> rfl
  rw [← hnumber, Std.ExtTreeMap.getD_eq_getD_getElem?, hsheet.upToDate name, CellTable.value]
  cases sheet.cells.content? name <;> rfl

theorem Sound.getElem?_values (hsheet : sheet.Sound) (name : String) :
    sheet.values[name]? = (sheet.cells.content? name).map fun _ =>
      sheet.cells.fromScratch hsheet.wellFounded_mentionedBy name := by
  have hvalue := CellTable.eq_fromScratch hsheet.wellFounded_mentionedBy
    hsheet.getD_values_eq_value name
  rw [← hvalue, Std.ExtTreeMap.getD_eq_getD_getElem?, hsheet.upToDate name]
  cases sheet.cells.content? name <;> rfl

theorem Sound.values_eq {other : Sheet} (hsheet : sheet.Sound) (hother : other.Sound)
    (hcells : sheet.cells = other.cells) : sheet.values = other.values := by
  obtain ⟨options, cells, links, values, file, modified⟩ := sheet
  cases hcells
  apply Std.ExtTreeMap.ext_getElem?
  intro name
  rw [hother.getElem?_values]
  exact hsheet.getElem?_values name

end Sheet

namespace Desk

end Desk

end Worksheet
