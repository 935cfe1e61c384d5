import Worksheet.Proofs.Desk.History
import Worksheet.Proofs.Links.Sweep

/-!
# Which edits are accepted, and in what order cells follow

An edit is refused as circular if and only if the cell would use itself, through its
new content and the formulas that the other cells have (`Sheet.ClosesCircle`).  An edit
that is accepted gives an order of recomputation for the new contents
(`CellTable.IsRecomputeOrder`).  Both are said of the formulas alone: the links, and
the walk along them that decides, are not mentioned.

## Strategy

After every history the links are those that the contents ask for (`Sheet.Linked`), so
what is fed along the links is what mentions, directly or through others.  For the
circle this is applied to the sheet before the edit, by
`Links.Consistent.feeds_replacePrecedents_iff`, and for the order to the sheet that the
edit leaves.
-/

namespace Worksheet

open Relation

/-- Whether `order` is an order in which to recompute cells when `root` has changed:
`root` comes first, the cells are those that use it, each once, and each comes after
what it mentions. -/
structure CellTable.IsRecomputeOrder (table : CellTable) (root : String) (order : List String) :
    Prop where
  head : order.head? = some root
  nodup : order.Nodup
  mem_iff : ∀ cell, cell ∈ order ↔ cell = root ∨ TransGen table.MentionedBy root cell
  mentioned_first : ∀ (i j : Nat) (hi : i < order.length) (hj : j < order.length),
    order[i] ∈ table.mentions order[j] → i < j

namespace Sheet

variable {sheet : Sheet}

/-- Whether a cell with a new content would use itself.  What the content mentions is
the cell, or uses the cell through the formulas of others. -/
def ClosesCircle (sheet : Sheet) (name : String) (content : CellContent) : Prop :=
  ∃ mentioned ∈ content.names, mentioned = name ∨
    TransGen (fun used cell => cell ≠ name ∧ sheet.cells.MentionedBy used cell) name mentioned

/-- What becomes of an edit that gives a cell a content. -/
structure Decides (sheet : Sheet) (name : String) (content : CellContent) (edit : Edit) :
    Prop where
  refused_iff : edit.result = .error (.circular ⟨name⟩) ↔ sheet.ClosesCircle name content
  accepted : ¬ sheet.ClosesCircle name content → ∃ order, edit.result = .ok order ∧
    edit.sheet.cells = (sheet.cells.set name content).2 ∧
    edit.sheet.cells.IsRecomputeOrder name order

/-! ## Along links and along formulas -/

theorem Linked.feeds_rewired_iff (hlinked : sheet.Linked) {name : String}
    {content : CellContent} :
    (sheet.rewired name content).links.Feeds name name ↔ sheet.ClosesCircle name content := by
  unfold ClosesCircle
  rw [hlinked.mentionedBy_eq]
  exact hlinked.consistent.feeds_replacePrecedents_iff

/-- Where no cell uses itself, the orders of recomputation that the links give are those
that the formulas ask for. -/
theorem Linked.isRecomputeOrder (hlinked : sheet.Linked) {root : String} {order : List String}
    (horder : sheet.links.OrderFrom root order) : sheet.cells.IsRecomputeOrder root order where
  head := horder.head
  nodup := horder.nodup
  mem_iff cell := by
    rw [horder.mem_iff, hlinked.mentionedBy_eq, Links.Reaches, reflTransGen_iff_eq_or_transGen]
  mentioned_first i j hi hj hmention := by
    have hpairwise := hlinked.pairwise_not_mem_mentions horder
    rcases Nat.lt_trichotomy i j with hlt | rfl | hgt
    · exact hlt
    · exact absurd hmention (hlinked.not_mem_mentions_self _)
    · exact absurd hmention (List.pairwise_iff_getElem.mp hpairwise j i hj hi hgt)

/-! ## Edits -/

theorem Linked.decides_place (hlinked : sheet.Linked) (name : String) (content : CellContent) :
    sheet.Decides name content (sheet.place name content) := by
  rcases place_cases hlinked.consistent name content with
    ⟨hfeeds, hplace⟩ | ⟨order, horder, hplace⟩
  · have hcircle := hlinked.feeds_rewired_iff.mp hfeeds
    rw [hplace]
    exact ⟨⟨fun _ => hcircle, fun _ => rfl⟩, fun hnot => absurd hcircle hnot⟩
  · have hnot := mt hlinked.feeds_rewired_iff.mpr horder.not_feeds
    have hnew := (hlinked.rewired horder.not_feeds).isRecomputeOrder horder
    rw [hplace]
    refine ⟨⟨fun heq => ?_, fun hcircle => absurd hcircle hnot⟩, fun _ => ⟨order, rfl, rfl, hnew⟩⟩
    cases heq

theorem Linked.decides_edit (hlinked : sheet.Linked) {name stored : String}
    {outcome : Except ContentFault CellContent} {content : CellContent}
    (hname : sheet.resolve name = .ok stored) (hcontent : outcome = .ok content) :
    sheet.Decides stored content (sheet.edit name outcome) := by
  unfold edit
  rw [hname, hcontent]
  exact hlinked.decides_place stored content

/-- Orders of recomputation for several cells are never refused as circular. -/
theorem Linked.exists_recomputeOrder (hlinked : sheet.Linked) {names : List String}
    (hnames : ∀ name ∈ names, sheet.options.rules.accepts name = true) :
    ∃ order, sheet.recomputeOrder names = .ok order := by
  have hresolve : ∃ stored, names.mapM sheet.resolve = .ok stored := by
    refine exists_mapM_eq_ok_iff.mpr fun name hname => ?_
    obtain ⟨stored, hstored⟩ := Option.isSome_iff_exists.mp (hnames name hname)
    exact ⟨stored, resolve_eq_ok_iff.mpr hstored⟩
  obtain ⟨stored, hstored⟩ := hresolve
  obtain ⟨order, horder⟩ := hlinked.acyclic.exists_recomputeOrder stored
  refine ⟨order, ?_⟩
  rw [recomputeOrder, hstored]
  change (sheet.links.recomputeOrder stored).mapError SheetError.circular = _
  rw [horder]
  rfl

end Sheet

/-- After every history, an edit is refused as circular exactly if the cell would use
itself, and gives an order of recomputation for the new contents otherwise.  Asking for
the order of accepted names never fails. -/
theorem Desk.decides_after (options : SheetOptions) (folder : Folder)
    (history : List Operation) :
    let sheet := ((opened options folder).after history).sheet
    (∀ name stored, sheet.resolve name = .ok stored →
      (∀ literal content, CellContent.enter sheet.options.rules literal = .ok content →
        sheet.Decides stored content (sheet.enter name literal)) ∧
      ∀ given content, given.adopt sheet.options.rules = .ok content →
        sheet.Decides stored content (sheet.assign name given)) ∧
    ∀ names, (∀ name ∈ names, sheet.options.rules.accepts name = true) →
      ∃ order, sheet.recomputeOrder names = .ok order := by
  intro sheet
  have hlinked : sheet.Linked := (sound_after options folder history).toLinked
  refine ⟨fun name stored hname => ⟨?_, ?_⟩, fun names => hlinked.exists_recomputeOrder⟩
  · exact fun literal content hcontent => hlinked.decides_edit hname hcontent
  · exact fun given content hcontent => hlinked.decides_edit hname hcontent

/-- To clear `A` closes no circle, and what uses it comes after it. -/
theorem Desk.isRecomputeOrder_of_clearing :
    let sheet := ((opened {} ∅).after [.enter "B" "=A", .enter "C" "=B+A"]).sheet
    ∃ order, (sheet.enter "A" "").result = .ok order ∧
      (sheet.enter "A" "").sheet.cells.IsRecomputeOrder "A" order := by
  intro sheet
  have hname : sheet.resolve "A" = .ok "A" := by decide +kernel
  have hcontent : CellContent.enter sheet.options.rules "" = .ok (.text "") := rfl
  have hafter := decides_after {} ∅ [.enter "B" "=A", .enter "C" "=B+A"]
  have hdecides : sheet.Decides "A" (.text "") (sheet.enter "A" "") :=
    (hafter.1 "A" "A" hname).1 "" (.text "") hcontent
  have hcircle : ¬ sheet.ClosesCircle "A" (.text "") := by
    rintro ⟨mentioned, hmentioned, -⟩
    cases hmentioned
  obtain ⟨order, hresult, -, horder⟩ := hdecides.accepted hcircle
  exact ⟨order, hresult, horder⟩

end Worksheet
