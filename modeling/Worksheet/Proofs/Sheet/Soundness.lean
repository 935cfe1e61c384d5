import Worksheet.Proofs.Links.Circles
import Worksheet.Proofs.Sheet.Recomputation

/-!
# Contents, links and values in step

`Sheet.Sound` is the invariant of a sheet.  The links are those that the contents ask
for, they run in no circle, and every value is up to date.  It is kept by every edit,
whether the edit is refused or not.

An edit has two outcomes and no third (`place_cases`).  Either the new links feed the
cell to itself, and the sheet is the one before; or they do not, and the sheet is the
rewired one with the cells of a recompute order worked off.  Everything that is
proved of edits is read off these two.
-/

namespace Worksheet.Sheet

open Relation

variable {sheet : Sheet}

/-! ## The outcomes of an edit -/

/-- The sheet with a new content in a cell and links to what it mentions, and with the
values as they were. -/
def rewired (sheet : Sheet) (name : String) (content : CellContent) : Sheet :=
  { sheet with
    cells := (sheet.cells.set name content).2
    links := sheet.links.replacePrecedents name content.names }

/-- The sheet after an edit that has led to a recompute order. -/
def edited (sheet : Sheet) (name : String) (content : CellContent) (order : List String) :
    Sheet :=
  { (sheet.rewired name content).recompute order with modified := true }

theorem place_of_ok {name : String} {content : CellContent} {order : List String}
    (horder : (sheet.rewired name content).links.recomputeOrder [name] = .ok order) :
    sheet.place name content = ⟨.ok order, sheet.edited name content order⟩ := by
  change (sheet.links.replacePrecedents name content.names).recomputeOrder [name] = .ok order
    at horder
  simp only [place, horder]
  rfl

theorem place_of_error {name : String} {content : CellContent} {circle : CircularReference}
    (hlinks : sheet.links.Consistent)
    (hcircle : (sheet.rewired name content).links.recomputeOrder [name] = .error circle) :
    sheet.place name content = ⟨.error (.circular circle), sheet⟩ := by
  change (sheet.links.replacePrecedents name content.names).recomputeOrder [name] = .error circle
    at hcircle
  simp only [place, hcircle]
  rw [hlinks.restorePrecedents_replacePrecedents, sheet.cells.restore_set]

/-- An edit is refused and changes nothing, or it is carried out in full. -/
theorem place_cases (hlinks : sheet.links.Consistent) (name : String) (content : CellContent) :
    ((sheet.rewired name content).links.Feeds name name ∧
        sheet.place name content = ⟨.error (.circular ⟨name⟩), sheet⟩) ∨
      ∃ order, (sheet.rewired name content).links.OrderFrom name order ∧
        sheet.place name content = ⟨.ok order, sheet.edited name content order⟩ := by
  cases horder : (sheet.rewired name content).links.recomputeOrder [name] with
  | error circle =>
      obtain ⟨rfl, hfeeds⟩ := Links.feeds_of_recomputeOrder_error horder
      exact Or.inl ⟨hfeeds, place_of_error hlinks horder⟩
  | ok order =>
      exact Or.inr ⟨order, Links.orderFrom_of_recomputeOrder_ok horder, place_of_ok horder⟩

/-- What `place_cases` says of edits under a name and with a content that may be
refused. -/
theorem edit_cases (hlinks : sheet.links.Consistent) (name : String)
    (content : Except ContentFault CellContent) :
    (∃ cause, sheet.edit name content = ⟨.error cause, sheet⟩) ∨
      ∃ stored accepted order, sheet.resolve name = .ok stored ∧ content = .ok accepted ∧
        (sheet.rewired stored accepted).links.OrderFrom stored order ∧
        sheet.edit name content = ⟨.ok order, sheet.edited stored accepted order⟩ := by
  unfold edit
  cases hresolve : sheet.resolve name with
  | error cause => exact Or.inl ⟨cause, rfl⟩
  | ok stored =>
      cases content with
      | error fault => exact Or.inl ⟨.invalidContent fault, rfl⟩
      | ok accepted =>
          rcases place_cases hlinks stored accepted with ⟨-, hplace⟩ | ⟨order, horder, hplace⟩
          · exact Or.inl ⟨_, hplace⟩
          · exact Or.inr ⟨stored, accepted, order, rfl, rfl, horder, hplace⟩

/-! ## Links that the contents ask for -/

/-- The links of a sheet are those from each mentioned cell to the cells that mention
it, and they run in no circle. -/
structure Linked (sheet : Sheet) : Prop where
  consistent : sheet.links.Consistent
  precedents_eq : ∀ name, sheet.links.precedents name = sheet.cells.mentions name
  acyclic : sheet.links.Acyclic

theorem Linked.leads_iff (hlinked : sheet.Linked) {mentioned name : String} :
    sheet.links.Leads mentioned name ↔ mentioned ∈ sheet.cells.mentions name := by
  rw [← hlinked.precedents_eq, hlinked.consistent.mem_precedents_iff, Links.Leads]

theorem Linked.mentionedBy_eq (hlinked : sheet.Linked) :
    sheet.cells.MentionedBy = sheet.links.Leads := by
  ext mentioned cell
  exact hlinked.leads_iff.symm

theorem Linked.rewired (hlinked : sheet.Linked) {name : String} {content : CellContent}
    (hcell : ¬ (sheet.rewired name content).links.Feeds name name) :
    (sheet.rewired name content).Linked where
  consistent := hlinked.consistent.replacePrecedents name content.names
  precedents_eq other := by
    have hafter := hlinked.consistent.precedents_replacePrecedents name other content.names
    refine hafter.trans ?_
    rw [eraseDups_eq_self content.nodup_names, hlinked.precedents_eq]
    exact (sheet.cells.mentions_set name other content).symm
  acyclic := hlinked.consistent.acyclic_replacePrecedents hlinked.acyclic hcell

/-- Where links run in no circle, an order of recomputation has each cell behind those
that it mentions. -/
theorem Linked.pairwise_not_mem_mentions (hlinked : sheet.Linked) {root : String}
    {order : List String} (horder : sheet.links.OrderFrom root order) :
    order.Pairwise fun earlier later => later ∉ sheet.cells.mentions earlier := by
  refine horder.ordered.imp fun {earlier later} hinOrder hmention => ?_
  have hleads := hlinked.leads_iff.mpr hmention
  exact hlinked.acyclic later (TransGen.head' hleads (hinOrder hleads))

theorem Linked.not_mem_mentions_self (hlinked : sheet.Linked) (name : String) :
    name ∉ sheet.cells.mentions name := fun hmention =>
  hlinked.acyclic name (TransGen.single (hlinked.leads_iff.mpr hmention))

/-! ## The invariant -/

/-- Contents, links and values are in step, no cell holds the empty text, and every
name is one that the sheet stores. -/
structure Sound (sheet : Sheet) : Prop extends Linked sheet where
  upToDate : ∀ name, UpToDate sheet.cells sheet.values name
  not_isEmpty : ∀ name content, sheet.cells.content? name = some content →
    content.isEmpty = false
  stores_cell : ∀ name content, sheet.cells.content? name = some content →
    sheet.options.rules.Stores name
  stores_mention : ∀ name, ∀ mentioned ∈ sheet.cells.mentions name,
    sheet.options.rules.Stores mentioned

theorem sound_empty (options : SheetOptions) : (empty options).Sound where
  consistent := Links.consistent_empty
  precedents_eq name := by simp [empty, CellTable.mentions, CellTable.content?_empty]
  acyclic cell hcircle := by
    obtain ⟨next, hleads, -⟩ := TransGen.head'_iff.mp hcircle
    simp [empty, Links.Leads] at hleads
  upToDate name := by simp [empty, UpToDate, CellTable.content?_empty]
  not_isEmpty name content hcontent := by simp [empty, CellTable.content?_empty] at hcontent
  stores_cell name content hcontent := by simp [empty, CellTable.content?_empty] at hcontent
  stores_mention name mentioned hmention := by
    simp [empty, CellTable.mentions, CellTable.content?_empty] at hmention

/-- The invariant does not speak of the file and of the mark of a change. -/
theorem Sound.marked (hsheet : sheet.Sound) (file : Option String) (modified : Bool) :
    { sheet with file, modified }.Sound where
  consistent := hsheet.consistent
  precedents_eq := hsheet.precedents_eq
  acyclic := hsheet.acyclic
  upToDate := hsheet.upToDate
  not_isEmpty := hsheet.not_isEmpty
  stores_cell := hsheet.stores_cell
  stores_mention := hsheet.stores_mention

/-- Working off an order of recomputation brings every value up to date. -/
theorem Sound.upToDate_edited (hsheet : sheet.Sound) {name : String} {content : CellContent}
    {order : List String} (hlinked : (sheet.rewired name content).Linked)
    (horder : (sheet.rewired name content).links.OrderFrom name order) (other : String) :
    UpToDate (sheet.edited name content order).cells (sheet.edited name content order).values
      other := by
  have hroot : name ∈ order := List.mem_of_head? horder.head
  refine upToDate_foldl_refresh hsheet.upToDate horder.nodup
    (hlinked.pairwise_not_mem_mentions horder)
    (fun cell _ => hlinked.not_mem_mentions_self cell) ?_ ?_ other
  · -- What mentions a cell of the order is reached from the root through that cell.
    intro mentioned hmentioned cell hcell
    have hreach := (horder.mem_iff mentioned).mp hmentioned
    exact (horder.mem_iff cell).mpr (hreach.tail (hlinked.leads_iff.mpr hcell))
  · intro cell hcell
    have hne : cell ≠ name := fun heq => hcell (heq ▸ hroot)
    exact (sheet.cells.content?_set name cell content).trans (if_neg hne)

theorem Sound.edited (hsheet : sheet.Sound) {name : String} {content : CellContent}
    {order : List String} (horder : (sheet.rewired name content).links.OrderFrom name order)
    (hname : sheet.options.rules.Stores name)
    (hmentions : ∀ mentioned ∈ content.names, sheet.options.rules.Stores mentioned) :
    (sheet.edited name content order).Sound := by
  have hlinked : (sheet.rewired name content).Linked := hsheet.toLinked.rewired horder.not_feeds
  constructor
  · exact ⟨hlinked.consistent, hlinked.precedents_eq, hlinked.acyclic⟩
  · exact hsheet.upToDate_edited hlinked horder
  · intro other found hfound
    rcases CellTable.content?_set_cases hfound with ⟨-, rfl, hempty⟩ | hbefore
    · exact hempty
    · exact hsheet.not_isEmpty other found hbefore
  · intro other found hfound
    rcases CellTable.content?_set_cases hfound with ⟨rfl, -, -⟩ | hbefore
    · exact hname
    · exact hsheet.stores_cell other found hbefore
  · intro other mentioned hmentioned
    change mentioned ∈ (sheet.cells.set name content).2.mentions other at hmentioned
    rw [CellTable.mentions_set] at hmentioned
    split at hmentioned
    · exact hmentions mentioned hmentioned
    · exact hsheet.stores_mention other mentioned hmentioned

/-! ## Edits keep the invariant -/

theorem resolve_eq_ok_iff {name stored : String} :
    sheet.resolve name = .ok stored ↔ sheet.options.rules.resolve name = some stored := by
  unfold resolve
  cases sheet.options.rules.resolve name <;> simp

theorem Sound.edit (hsheet : sheet.Sound) (name : String)
    {content : Except ContentFault CellContent}
    (hmentions : ∀ accepted, content = .ok accepted → ∀ mentioned ∈ accepted.names,
      sheet.options.rules.Stores mentioned) :
    (sheet.edit name content).sheet.Sound := by
  rcases edit_cases hsheet.consistent name content with
    ⟨cause, hedit⟩ | ⟨stored, accepted, order, hresolve, hcontent, horder, hedit⟩
  · rw [hedit]
    exact hsheet
  · rw [hedit]
    have hname := NameRules.stores_of_resolve (resolve_eq_ok_iff.mp hresolve)
    exact hsheet.edited horder hname (hmentions accepted hcontent)

theorem Sound.enter (hsheet : sheet.Sound) (name literal : String) :
    (sheet.enter name literal).sheet.Sound :=
  hsheet.edit name fun _ henter _ hmentioned => CellContent.stores_of_enter henter hmentioned

theorem Sound.assign (hsheet : sheet.Sound) (name : String) (content : CellContent) :
    (sheet.assign name content).sheet.Sound :=
  hsheet.edit name fun _ hadopt _ hmentioned => CellContent.stores_of_adopt hadopt hmentioned

end Worksheet.Sheet
