import Mathlib.Order.WellFoundedSet
import Worksheet.Proofs.Cell.Mentions

/-!
# Values from scratch

The value of a cell follows from the contents alone, by recursion along what formulas
mention.  The recursion comes to an end if no cell mentions itself, directly or
through others, because only finitely many cells hold a formula
(`wellFounded_mentionedBy`).

`CellTable.fromScratch` is this recursion.  It is the only assignment of values under
which every cell shows what its content gives with the values of the other cells
(`eq_fromScratch`).
-/

namespace Worksheet.CellTable

open Relation

variable {table : CellTable}

/-- A relation without circles is well founded if only finitely many elements have
anything below them. -/
theorem wellFounded_of_finite {α : Type} {r : α → α → Prop}
    (hfinite : {b | ∃ a, r a b}.Finite) (hacyclic : ∀ a, ¬ TransGen r a a) : WellFounded r := by
  have : IsStrictOrder α (TransGen r) :=
    { irrefl := hacyclic, trans := fun _ _ _ => TransGen.trans }
  have hon : {b | ∃ a, r a b}.WellFoundedOn (TransGen r) := hfinite.wellFoundedOn
  have hbottom : ∀ b, b ∉ {b | ∃ a, r a b} → Acc r b := fun b hb =>
    Acc.intro b fun a hstep => absurd ⟨a, hstep⟩ hb
  refine ⟨fun b => ?_⟩
  -- Inside the finite set the induction is along paths, which cannot go on for ever.
  by_cases hb : b ∈ {b | ∃ a, r a b}
  · refine hon.induction hb fun c _ ih => Acc.intro c fun a hstep => ?_
    by_cases ha : a ∈ {b | ∃ a, r a b}
    · exact ih a ha (TransGen.single hstep)
    · exact hbottom a ha
  · exact hbottom b hb

theorem wellFounded_mentionedBy (hacyclic : ∀ name, ¬ TransGen table.MentionedBy name name) :
    WellFounded table.MentionedBy := by
  refine wellFounded_of_finite ?_ hacyclic
  refine table.names.finite_toSet.subset ?_
  rintro cell ⟨mentioned, hmention⟩
  obtain ⟨content, hcontent, -⟩ := mem_mentions_iff.mp hmention
  exact mem_names_iff.mpr ⟨content, hcontent⟩

/-- The value of a cell, computed from the contents alone.  A name in a formula stands
for the number of the cell of that name, if the value of that cell is a number. -/
noncomputable def fromScratch (table : CellTable) (hwf : WellFounded table.MentionedBy) :
    String → CellValue :=
  hwf.fix fun name valueOf =>
    table.value name fun other =>
      if hother : table.MentionedBy other name then (valueOf other hother).number? else none

theorem value_congr (table : CellTable) (name : String) {first second : String → Option Float}
    (hagree : ∀ other ∈ table.mentions name, first other = second other) :
    table.value name first = table.value name second := by
  unfold value
  cases hcontent : table.content? name with
  | none => rfl
  | some content =>
      rw [mentions_of_content? hcontent] at hagree
      exact content.value_congr hagree

/-- The recursion that `fromScratch` obeys. -/
theorem fromScratch_eq (hwf : WellFounded table.MentionedBy) (name : String) :
    table.fromScratch hwf name =
      table.value name fun other => (table.fromScratch hwf other).number? := by
  unfold fromScratch
  rw [hwf.fix_eq]
  exact table.value_congr name fun other hother => dif_pos hother

/-- No other values obey the recursion. -/
theorem eq_fromScratch (hwf : WellFounded table.MentionedBy) {values : String → CellValue}
    (hvalues : ∀ name, values name = table.value name fun other => (values other).number?)
    (name : String) : values name = table.fromScratch hwf name := by
  induction name using hwf.induction with
  | _ name ih =>
      rw [hvalues, fromScratch_eq]
      exact table.value_congr name fun other hother => by rw [ih other hother]

end Worksheet.CellTable
