import Worksheet.Proofs.Desk.Literals

/-!
# What an edit leaves alone

An edit that is carried out clears the links to its cell and makes new ones, which pass
through the lists of many other cells, and it computes a whole order of cells anew.  All the
same it touches one content, the precedents of one cell, the place of that cell among the
dependents of others, and the values of the cells in its order (`Sheet.TouchesOnly`).

## Strategy

The lists of dependents agree once the cell is taken out of them, before and after
(`Links.Consistent.agreeApart_replacePrecedents`).  The cell is not in its own list of
dependents, neither before the edit nor afterwards, since it would feed itself.  So that list
is untouched as it stands, although the edit has looked for the cell in it.
-/

namespace Worksheet

namespace Sheet

variable {sheet : Sheet}

/-- What it is for an edit to give `cell` a content, to compute the cells in `order` anew and to
touch nothing else. -/
structure TouchesOnly (cell : String) (content : CellContent) (order : List String)
    (before after : Sheet) : Prop where
  content_self : after.cells.content? cell = if content.isEmpty then none else some content
  content_eq : ∀ other, other ≠ cell → after.cells.content? other = before.cells.content? other
  precedents_self : after.links.precedents cell = content.names
  precedents_eq : ∀ t, t ≠ cell → after.links.precedents t = before.links.precedents t
  dependents_self : after.links.dependents cell = before.links.dependents cell
  dependents_eq : ∀ s, (after.links.dependents s).filter (· != cell) =
    (before.links.dependents s).filter (· != cell)
  values_eq : ∀ other, other ∉ order → after.values[other]? = before.values[other]?
  options_eq : after.options = before.options
  file_eq : after.file = before.file

theorem Linked.dependents_rewired_self (hlinked : sheet.Linked) {cell : String}
    {content : CellContent} (hcell : ¬ (sheet.rewired cell content).links.Feeds cell cell) :
    (sheet.rewired cell content).links.dependents cell = sheet.links.dependents cell := by
  have hbefore : cell ∉ sheet.links.dependents cell := fun hmem =>
    hlinked.acyclic cell (.single hmem)
  have hafter : cell ∉ (sheet.rewired cell content).links.dependents cell := fun hmem =>
    hcell (.single hmem)
  have hagree := hlinked.consistent.agreeApart_replacePrecedents cell content.names
  calc (sheet.rewired cell content).links.dependents cell
      = ((sheet.rewired cell content).links.dependents cell).erase cell :=
        (List.erase_of_not_mem hafter).symm
    _ = (sheet.links.dependents cell).erase cell := hagree.dependents_eq cell
    _ = sheet.links.dependents cell := List.erase_of_not_mem hbefore

theorem Linked.touchesOnly_edited (hlinked : sheet.Linked) {cell : String}
    {content : CellContent} {order : List String}
    (horder : (sheet.rewired cell content).links.OrderFrom cell order) :
    TouchesOnly cell content order sheet (sheet.edited cell content order) where
  content_self := (sheet.cells.content?_set cell cell content).trans (if_pos rfl)
  content_eq other hother := (sheet.cells.content?_set cell other content).trans (if_neg hother)
  precedents_self := by
    have hself := hlinked.consistent.precedents_replacePrecedents cell cell content.names
    rw [if_pos rfl, eraseDups_eq_self content.nodup_names] at hself
    exact hself
  precedents_eq :=
    (hlinked.consistent.agreeApart_replacePrecedents cell content.names).precedents_eq
  dependents_self := hlinked.dependents_rewired_self horder.not_feeds
  dependents_eq s := by
    have hrewired := hlinked.consistent.replacePrecedents cell content.names
    have herase :=
      (hlinked.consistent.agreeApart_replacePrecedents cell content.names).dependents_eq s
    rwa [(hrewired.nodup_dependents s).erase_eq_filter,
      (hlinked.consistent.nodup_dependents s).erase_eq_filter] at herase
  values_eq other hother := getElem?_foldl_refresh_of_not_mem hother
  options_eq := rfl
  file_eq := rfl

/-- An edit that is carried out touches the cell that its name resolves to, and what depends
on it. -/
theorem Linked.touchesOnly_edit (hlinked : sheet.Linked) {name : String}
    {given : Except ContentFault CellContent} {order : List String}
    (hedit : (sheet.edit name given).result = .ok order) :
    ∃ cell content, sheet.resolve name = .ok cell ∧ given = .ok content ∧
      TouchesOnly cell content order sheet (sheet.edit name given).sheet := by
  rcases edit_cases hlinked.consistent name given with
    ⟨cause, hrefused⟩ | ⟨cell, content, found, hcell, hcontent, horder, haccepted⟩
  · rw [hrefused] at hedit
    cases hedit
  · rw [haccepted] at hedit ⊢
    cases hedit
    exact ⟨cell, content, hcell, hcontent, hlinked.touchesOnly_edited horder⟩

end Sheet

namespace Desk

/-- After every history, to type a literal into a cell or to assign a content to it touches
only this cell and what is computed anew, if it succeeds. -/
theorem touchesOnly_after (options : SheetOptions) (folder : Folder) (history : List Operation) :
    let sheet := ((opened options folder).after history).sheet
    (∀ name literal order, (sheet.enter name literal).result = .ok order →
      ∃ cell content, sheet.resolve name = .ok cell ∧
        CellContent.enter sheet.options.rules literal = .ok content ∧
        Sheet.TouchesOnly cell content order sheet (sheet.enter name literal).sheet) ∧
    ∀ name given order, (sheet.assign name given).result = .ok order →
      ∃ cell content, sheet.resolve name = .ok cell ∧
        given.adopt sheet.options.rules = .ok content ∧
        Sheet.TouchesOnly cell content order sheet (sheet.assign name given).sheet := by
  intro sheet
  have hlinked : sheet.Linked := (sound_after options folder history).toLinked
  exact ⟨fun _ _ _ => hlinked.touchesOnly_edit, fun _ _ _ => hlinked.touchesOnly_edit⟩

/-- `B` gives up `X` and gets behind `C` at `A`, and `D`, which uses `B`, is computed anew.  Then
`C` becomes a number. -/
theorem touchesOnly_after_reentry :
    let sheet := ((opened {} ∅).after [.enter "B" "=A+X", .enter "C" "=A", .enter "D" "=B"]).sheet
    let usesA : CellContent := .formula ⟨[.name "A"], by decide⟩
    sheet.links.dependents "A" = ["B", "C"] ∧
      (sheet.enter "B" "=A").sheet.links.dependents "A" = ["C", "B"] ∧
      Sheet.TouchesOnly "B" usesA ["B", "D"] sheet (sheet.enter "B" "=A").sheet ∧
      Sheet.TouchesOnly "C" (.number 1) ["C"] sheet (sheet.assign "C" (.number 1)).sheet := by
  intro sheet usesA
  obtain ⟨henter, hassign⟩ := touchesOnly_after {} ∅
    [.enter "B" "=A+X", .enter "C" "=A", .enter "D" "=B"]
  have hB : sheet.resolve "B" = .ok "B" := by decide +kernel
  have hC : sheet.resolve "C" = .ok "C" := by decide +kernel
  have hliteral : CellContent.enter sheet.options.rules "=A" = .ok usesA := by decide +kernel
  have hnumber : (CellContent.number 1).adopt sheet.options.rules = .ok (.number 1) := by
    decide +kernel
  obtain ⟨cell, content, hcell, hcontent, hentered⟩ :=
    henter "B" "=A" ["B", "D"] (by decide +kernel)
  obtain rfl : cell = "B" := Except.ok.inj (hcell.symm.trans hB)
  obtain rfl : content = usesA := Except.ok.inj (hcontent.symm.trans hliteral)
  obtain ⟨cell, content, hcell, hcontent, hassigned⟩ :=
    hassign "C" (.number 1) ["C"] (by decide +kernel)
  obtain rfl : cell = "C" := Except.ok.inj (hcell.symm.trans hC)
  obtain rfl : content = .number 1 := Except.ok.inj (hcontent.symm.trans hnumber)
  exact ⟨by decide +kernel, by decide +kernel, hentered, hassigned⟩

end Desk

end Worksheet
