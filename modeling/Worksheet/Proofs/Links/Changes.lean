import Worksheet.Proofs.Links.Replacement

/-!
# Changes of a graph

A graph of links begins empty and is changed by the operations of its interface:
single links are made and taken away, all links of a cell are replaced in either
direction, and saved precedents are restored, whichever graph they were saved from.
`Links.after` is the graph after a list of changes.

The two directions of a graph agree after any changes (`Links.consistent_after`).
Changes of the links to one cell leave all other links where they were
(`Links.Consistent.agreeApart_after`).
-/

namespace Worksheet

/-- What may be done to a graph of links. -/
inductive LinkChange where
  | link (s t : String)
  | unlink (s t : String)
  | replaceDependents (s : String) (targets : List String)
  | replacePrecedents (t : String) (sources : List String)
  | restore (saved : PrecedentPlaces)
  deriving Repr, DecidableEq

/-- Whether a change is only about links that lead to a cell. -/
def LinkChange.LeadsTo (cell : String) : LinkChange → Prop
  | link _ t => t = cell
  | unlink _ t => t = cell
  | replaceDependents _ _ => False
  | replacePrecedents t _ => t = cell
  | restore saved => saved.cell = cell

namespace Links

/-- The graph after one change. -/
def change (links : Links) : LinkChange → Links
  | .link s t => links.link s t
  | .unlink s t => links.unlink s t
  | .replaceDependents s targets => links.replaceDependents s targets
  | .replacePrecedents t sources => links.replacePrecedents t sources
  | .restore saved => links.restorePrecedents saved

/-- The graph after some changes, one after the other. -/
def after (links : Links) (changes : List LinkChange) : Links := changes.foldl change links

variable {links : Links}

/-! ## Every graph is consistent -/

theorem Consistent.replaceDependents (hlinks : links.Consistent) (s : String)
    (targets : List String) : (links.replaceDependents s targets).Consistent := by
  have hcleared : ((links.dependents s).foldl (fun links t => links.unlink s t) links).Consistent :=
    List.foldlRecOn _ _ hlinks fun _ hnow t _ => hnow.unlink s t
  exact List.foldlRecOn targets _ hcleared fun _ hnow t _ => hnow.link s t

theorem Consistent.change (hlinks : links.Consistent) (change : LinkChange) :
    (links.change change).Consistent := by
  cases change with
  | link s t => exact hlinks.link s t
  | unlink s t => exact hlinks.unlink s t
  | replaceDependents s targets => exact hlinks.replaceDependents s targets
  | replacePrecedents t sources => exact hlinks.replacePrecedents t sources
  | restore saved => exact hlinks.restorePrecedents saved

theorem Consistent.after (hlinks : links.Consistent) (changes : List LinkChange) :
    (links.after changes).Consistent :=
  List.foldlRecOn changes _ hlinks fun _ hnow change _ => hnow.change change

theorem consistent_after (changes : List LinkChange) : ((∅ : Links).after changes).Consistent :=
  consistent_empty.after changes

/-! ## Changes of the links to one cell -/

theorem Consistent.agreeApart_change (hlinks : links.Consistent) {cell : String}
    {change : LinkChange} (hchange : change.LeadsTo cell) :
    AgreeApart cell (links.change change) links := by
  cases change with
  | link s t =>
      cases hchange
      have hlink : links.change (.link s cell) = links.linkAt s cell _ :=
        link_eq_linkAt s cell
      rw [hlink]
      exact hlinks.agreeApart_linkAt s cell _
  | unlink s t =>
      cases hchange
      exact hlinks.agreeApart_unlink s cell
  | replaceDependents s targets => cases hchange
  | replacePrecedents t sources =>
      cases hchange
      exact hlinks.agreeApart_replacePrecedents cell sources
  | restore saved =>
      cases hchange
      exact hlinks.agreeApart_restorePrecedents saved

theorem Consistent.agreeApart_after (hlinks : links.Consistent) {cell : String}
    {changes : List LinkChange} (hchanges : ∀ change ∈ changes, change.LeadsTo cell) :
    AgreeApart cell (links.after changes) links := by
  induction changes generalizing links with
  | nil => exact AgreeApart.refl cell links
  | cons change changes ih =>
      obtain ⟨hfirst, hrest⟩ := List.forall_mem_cons.mp hchanges
      exact (ih (hlinks.change change) hrest).trans (hlinks.agreeApart_change hfirst)

end Links

end Worksheet
