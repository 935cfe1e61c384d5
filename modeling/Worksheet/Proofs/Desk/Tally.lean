import Mathlib.Algebra.GroupWithZero.Nat
import Worksheet.Proofs.Desk.History

/-!
# Contents, links and values tally

A sheet holds the contents of its cells three times over, as contents, as links
between the cells and as values.  `Sheet.Tallies` spells out in what sense the three
say the same, without a word on how the sheet came about; every history leaves a sheet
that tallies (`Desk.tallies_after`).

## Strategy

Most of it is `Sheet.Sound` read aloud.  The number of links is the one thing that is
not: a consistent graph counts its pairs, and the pairs are listed without repetition
by going through the cells and, in each, through the names that its formula mentions
(`CellTable.mentionPairs`).
-/

namespace Worksheet

/-! ## Counting what is mentioned -/

namespace CellTable

/-- What is mentioned with the cell that mentions it, cell by cell. -/
def mentionPairs (table : CellTable) : List (String × String) :=
  table.toList.flatMap fun entry => entry.2.names.map fun mentioned => (mentioned, entry.1)

theorem mem_mentionPairs {table : CellTable} {mentioned name : String} :
    (mentioned, name) ∈ table.mentionPairs ↔ mentioned ∈ table.mentions name := by
  simp only [mentionPairs, List.mem_flatMap, List.mem_map, Prod.mk.injEq, Prod.exists,
    mem_toList_iff]
  rw [mem_mentions_iff]
  constructor
  · rintro ⟨cell, content, hcontent, other, hother, rfl, rfl⟩
    exact ⟨content, hcontent, hother⟩
  · rintro ⟨content, hcontent, hmention⟩
    exact ⟨name, content, hcontent, mentioned, hmention, rfl, rfl⟩

theorem nodup_mentionPairs (table : CellTable) : table.mentionPairs.Nodup := by
  refine List.nodup_flatMap.mpr ⟨fun entry _ => ?_, ?_⟩
  · exact entry.2.nodup_names.map fun first second heq => (Prod.mk.inj heq).1
  · refine table.cells.distinct_keys_toList.imp fun {first second} hkeys => ?_
    -- The cells are the second components, and no two entries are for one cell.
    intro pair hfirst hsecond
    obtain ⟨_, -, rfl⟩ := List.mem_map.mp hfirst
    obtain ⟨_, -, heq⟩ := List.mem_map.mp hsecond
    have hsame : second.1 = first.1 := (Prod.mk.inj heq).2
    rw [hsame] at hkeys
    exact hkeys Std.ReflCmp.compare_self

theorem length_mentionPairs (table : CellTable) :
    table.mentionPairs.length = (table.toList.map fun entry => entry.2.names.length).sum := by
  unfold mentionPairs
  rw [List.length_flatMap]
  simp only [List.length_map]

end CellTable

namespace Sheet

/-! ## The three accounts of a sheet -/

/-- Whether a name stands anywhere among the cells and the links of a sheet. -/
inductive Occurs (sheet : Sheet) (name : String) : Prop where
  | cell (hname : name ∈ sheet.cells.cells)
  | source (hname : name ∈ sheet.links.dependentsOf)
  | target (hname : name ∈ sheet.links.precedentsOf)
  | dependent (s : String) (hname : name ∈ sheet.links.dependents s)
  | precedent (t : String) (hname : name ∈ sheet.links.precedents t)

/-- Contents, links and values say the same. -/
structure Tallies (sheet : Sheet) : Prop where
  /-- A formula uses the cells that it mentions, in the order in which it does. -/
  precedents_of_formula : ∀ name f, sheet.cells.content? name = some (.formula f) →
    sheet.links.precedents name = f.names
  precedents_of_not_formula : ∀ name, (∀ f, sheet.cells.content? name ≠ some (.formula f)) →
    sheet.links.precedents name = []
  size_eq : sheet.links.size = (sheet.cells.toList.map fun entry => entry.2.names.length).sum
  /-- No cell comes back to itself along dependents. -/
  acyclic : ∀ name, ¬ Relation.TransGen (fun s t => t ∈ sheet.links.dependents s) name name
  mem_values_iff : ∀ name, name ∈ sheet.values ↔ name ∈ sheet.cells.cells
  /-- To hold the empty text is to hold nothing. -/
  content_ne_empty : ∀ name, sheet.cells.content? name ≠ some (.text "")
  isLegal : ∀ name, sheet.Occurs name → Name.isLegal name = true
  validate : ∀ name, sheet.Occurs name → sheet.options.rules.validate name = true

variable {sheet : Sheet}

theorem Linked.size_eq (hlinked : sheet.Linked) :
    sheet.links.size = (sheet.cells.toList.map fun entry => entry.2.names.length).sum := by
  have hpairs : sheet.links.pairs = sheet.cells.mentionPairs.toFinset := by
    ext ⟨mentioned, name⟩
    rw [Links.mem_pairs, List.mem_toFinset, CellTable.mem_mentionPairs, hlinked.leads_iff]
  rw [hlinked.consistent.size_eq, hpairs,
    List.toFinset_card_of_nodup sheet.cells.nodup_mentionPairs,
    CellTable.length_mentionPairs]

theorem mem_cells_iff {name : String} :
    name ∈ sheet.cells.cells ↔ ∃ content, sheet.cells.content? name = some content := by
  rw [Std.ExtTreeMap.mem_iff_isSome_getElem?, Option.isSome_iff_exists]
  rfl

theorem Sound.mem_values_iff (hsheet : sheet.Sound) (name : String) :
    name ∈ sheet.values ↔ name ∈ sheet.cells.cells := by
  rw [Std.ExtTreeMap.mem_iff_isSome_getElem?, hsheet.upToDate name, Option.isSome_map,
    Std.ExtTreeMap.mem_iff_isSome_getElem?]
  rfl

theorem Sound.stores_of_leads (hsheet : sheet.Sound) {s t : String}
    (hleads : sheet.links.Leads s t) :
    sheet.options.rules.Stores s ∧ sheet.options.rules.Stores t := by
  have hmention := hsheet.leads_iff.mp hleads
  obtain ⟨content, hcontent, -⟩ := CellTable.mem_mentions_iff.mp hmention
  exact ⟨hsheet.stores_mention t s hmention, hsheet.stores_cell t content hcontent⟩

/-- A cell that has a list of neighbours has a neighbour, as no empty list is kept, so
every name on a sheet is that of a cell or is at an end of a link. -/
theorem Sound.stores_of_occurs (hsheet : sheet.Sound) {name : String} (hname : sheet.Occurs name) :
    sheet.options.rules.Stores name := by
  cases hname with
  | cell hname =>
      obtain ⟨content, hcontent⟩ := mem_cells_iff.mp hname
      exact hsheet.stores_cell name content hcontent
  | source hname =>
      have hne := hsheet.consistent.pruned_dependents.mem_iff.mp hname
      obtain ⟨t, ht⟩ := List.exists_mem_of_ne_nil _ hne
      exact (hsheet.stores_of_leads ht).1
  | target hname =>
      have hne := hsheet.consistent.pruned_precedents.mem_iff.mp hname
      obtain ⟨s, hs⟩ := List.exists_mem_of_ne_nil _ hne
      exact (hsheet.stores_of_leads ((hsheet.consistent.mem_precedents_iff s name).mp hs)).2
  | dependent s hname => exact (hsheet.stores_of_leads hname).2
  | precedent t hname =>
      exact (hsheet.stores_of_leads ((hsheet.consistent.mem_precedents_iff name t).mp hname)).1

theorem Sound.tallies (hsheet : sheet.Sound) : sheet.Tallies where
  precedents_of_formula name f hcontent := by
    rw [hsheet.precedents_eq, CellTable.mentions_of_content? hcontent]
    rfl
  precedents_of_not_formula name hcontent := by
    rw [hsheet.precedents_eq, List.eq_nil_iff_forall_not_mem]
    intro mentioned hmention
    obtain ⟨content, hfound, hname⟩ := CellTable.mem_mentions_iff.mp hmention
    obtain ⟨f, rfl, -⟩ := CellContent.mem_names_iff.mp hname
    exact hcontent f hfound
  size_eq := hsheet.toLinked.size_eq
  acyclic := hsheet.acyclic
  mem_values_iff := hsheet.mem_values_iff
  content_ne_empty name hcontent := by
    have hempty := hsheet.not_isEmpty name _ hcontent
    cases hempty
  isLegal _ hname := (hsheet.stores_of_occurs hname).1
  validate _ hname := (hsheet.stores_of_occurs hname).2

end Sheet

/-- Every history leaves a sheet that tallies. -/
theorem Desk.tallies_after (options : SheetOptions) (folder : Folder)
    (history : List Operation) : ((opened options folder).after history).sheet.Tallies :=
  (sound_after options folder history).tallies

end Worksheet
