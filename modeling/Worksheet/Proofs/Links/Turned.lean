import Worksheet.Proofs.Links.Counts

/-!
# Links turned round

A graph treats its two directions alike.  With every link turned round, the dependents of a
cell are its precedents, and to link, to unlink and to replace are the same operations with
the two ends exchanged (`Links.Consistent.turned_replaceDependents`).  What is known of
replacing precedents is therefore known of replacing dependents.

`Links.replaces_after` tells everything that a replacement changes.  On its own side the cell
has the new neighbours and no other cell is touched.  On the other side the cell goes to the
end of the lists that it is in afterwards and leaves all others.  The number of links changes
by as much as the one list has become longer or shorter.
-/

namespace Worksheet.Links

open Finset

/-- The graph with every link turned round. -/
def turned (links : Links) : Links where
  dependentsOf := links.precedentsOf
  precedentsOf := links.dependentsOf
  size := links.size

@[simp] theorem dependents_turned (links : Links) (s : String) :
    links.turned.dependents s = links.precedents s := rfl

@[simp] theorem precedents_turned (links : Links) (t : String) :
    links.turned.precedents t = links.dependents t := rfl

@[simp] theorem size_turned (links : Links) : links.turned.size = links.size := rfl

variable {links : Links}

theorem Consistent.pairs_turned (hlinks : links.Consistent) :
    links.turned.pairs = links.pairs.map (Equiv.prodComm String String).toEmbedding := by
  ext ⟨s, t⟩
  have hpair : (s, t) ∈ links.pairs.map (Equiv.prodComm String String).toEmbedding ↔
      (t, s) ∈ links.pairs := by
    rw [mem_map_equiv]
    rfl
  rw [hpair, mem_pairs, mem_pairs, Leads, Leads, dependents_turned, hlinks.mem_precedents_iff]

theorem Consistent.turned (hlinks : links.Consistent) : links.turned.Consistent where
  mem_precedents_iff s t := (hlinks.mem_precedents_iff t s).symm
  nodup_dependents := hlinks.nodup_precedents
  nodup_precedents := hlinks.nodup_dependents
  pruned_dependents := hlinks.pruned_precedents
  pruned_precedents := hlinks.pruned_dependents
  size_eq := by
    rw [hlinks.pairs_turned, card_map]
    exact hlinks.size_eq

/-! ## The operations with their ends exchanged -/

theorem Consistent.turned_link (hlinks : links.Consistent) (s t : String) :
    (links.link s t).turned = links.turned.link t s := by
  apply (hlinks.link s t).turned.ext (hlinks.turned.link t s)
  · intro r
    rw [dependents_turned, hlinks.precedents_link, dependents_link]
    rfl
  · intro u
    rw [precedents_turned, dependents_link, hlinks.turned.precedents_link]
    rfl

theorem Consistent.turned_unlink (hlinks : links.Consistent) (s t : String) :
    (links.unlink s t).turned = links.turned.unlink t s := by
  apply (hlinks.unlink s t).turned.ext (hlinks.turned.unlink t s)
  · intro r
    rw [dependents_turned, hlinks.precedents_unlink, dependents_unlink]
    rfl
  · intro u
    rw [precedents_turned, dependents_unlink, hlinks.turned.precedents_unlink]
    rfl

/-- A run of steps, each of which can be turned round, can be turned round. -/
theorem Consistent.turned_foldl (step turnedStep : Links → String → Links)
    (hkeeps : ∀ links name, links.Consistent → (step links name).Consistent)
    (hstep : ∀ links name, links.Consistent → (step links name).turned =
      turnedStep links.turned name)
    (hlinks : links.Consistent) (names : List String) :
    (names.foldl step links).turned = names.foldl turnedStep links.turned := by
  induction names generalizing links with
  | nil => rfl
  | cons name names ih =>
      rw [List.foldl_cons, List.foldl_cons, ih (hkeeps links name hlinks), hstep links name hlinks]

theorem Consistent.turned_replaceDependents (hlinks : links.Consistent) (s : String)
    (targets : List String) :
    (links.replaceDependents s targets).turned = links.turned.replacePrecedents s targets := by
  have hcleared := turned_foldl (fun now t => now.unlink s t) (fun now t => now.unlink t s)
    (fun _ t hnow => hnow.unlink s t) (fun _ t hnow => hnow.turned_unlink s t) hlinks
    (links.dependents s)
  have hconsistent : ((links.dependents s).foldl (fun now t => now.unlink s t) links).Consistent :=
    hlinks.replaceDependents s []
  have hlinked := turned_foldl (fun now t => now.link s t) (fun now t => now.link t s)
    (fun _ t hnow => hnow.link s t) (fun _ t hnow => hnow.turned_link s t) hconsistent targets
  calc (links.replaceDependents s targets).turned
      = targets.foldl (fun now t => now.link t s)
          ((links.dependents s).foldl (fun now t => now.unlink s t) links).turned := hlinked
    _ = targets.foldl (fun now t => now.link t s)
          ((links.dependents s).foldl (fun now t => now.unlink t s) links.turned) := by
        rw [hcleared]
    _ = links.turned.replacePrecedents s targets := rfl

/-! ## The number of links -/

/-- The links to one cell and the others, counted together. -/
theorem Consistent.size_eq_add (hlinks : links.Consistent) (t : String) :
    links.size = (links.precedents t).length +
      (links.pairs.filter fun pair => ¬ pair.2 = t).card := by
  have hsplit := card_filter_add_card_filter_not (s := links.pairs) fun pair => pair.2 = t
  rw [hlinks.size_eq, ← hsplit, hlinks.card_filter_pairs]
  rfl

theorem Consistent.size_replacePrecedents (hlinks : links.Consistent) (t : String)
    (sources : List String) :
    (links.replacePrecedents t sources).size + (links.precedents t).length =
      links.size + sources.eraseDups.length := by
  have hothers : ((links.replacePrecedents t sources).pairs.filter fun pair => ¬ pair.2 = t) =
      links.pairs.filter fun pair => ¬ pair.2 = t := by
    ext ⟨r, u⟩
    rw [mem_filter, mem_filter, mem_pairs, mem_pairs, hlinks.leads_replacePrecedents]
    refine and_congr_left fun hu => ?_
    rw [if_neg hu]
  have hbefore := hlinks.size_eq_add t
  have hafter := (hlinks.replacePrecedents t sources).size_eq_add t
  rw [hlinks.precedents_replacePrecedents, if_pos rfl, hothers] at hafter
  omega

/-! ## What a replacement changes -/

/-- What it is to replace the neighbours of a cell in one direction, `near`, where `far` is
the other one. -/
structure Replaces (near far : Links → String → List String) (name : String)
    (names : List String) (before after : Links) : Prop where
  near_self : near after name = names.eraseDups
  near_apart : ∀ other, other ≠ name → near after other = near before other
  far_eq : ∀ other, far after other =
    (far before other).filter (· != name) ++ if other ∈ names then [name] else []
  size_eq : after.size + (near before name).length = before.size + names.eraseDups.length

theorem Consistent.replaces_replacePrecedents (hlinks : links.Consistent) (t : String)
    (sources : List String) :
    Replaces precedents dependents t sources links (links.replacePrecedents t sources) where
  near_self := by rw [hlinks.precedents_replacePrecedents, if_pos rfl]
  near_apart u hu := by rw [hlinks.precedents_replacePrecedents, if_neg hu]
  far_eq r := by
    rw [hlinks.dependents_replacePrecedents, (hlinks.nodup_dependents r).erase_eq_filter]
    split
    · rfl
    · exact (List.append_nil _).symm
  size_eq := hlinks.size_replacePrecedents t sources

/-- The same with the directions exchanged. -/
theorem Consistent.replaces_replaceDependents (hlinks : links.Consistent) (s : String)
    (targets : List String) :
    Replaces dependents precedents s targets links (links.replaceDependents s targets) := by
  have hturned := hlinks.turned.replaces_replacePrecedents s targets
  rw [← hlinks.turned_replaceDependents] at hturned
  exact ⟨hturned.near_self, hturned.near_apart, hturned.far_eq, hturned.size_eq⟩

/-- To replace the neighbours of a cell, in either direction and whatever has been done to
the graph before, changes just this. -/
theorem replaces_after (changes : List LinkChange) (name : String) (names : List String) :
    let links := (∅ : Links).after changes
    Replaces dependents precedents name names links (links.replaceDependents name names) ∧
      Replaces precedents dependents name names links (links.replacePrecedents name names) := by
  intro links
  have hlinks : links.Consistent := consistent_after changes
  exact ⟨hlinks.replaces_replaceDependents name names, hlinks.replaces_replacePrecedents name names⟩

/-- `A` loses `B`, is linked to `C` once and keeps the link to itself, which moves to the end of
its precedents. -/
example :
    let links := (∅ : Links).after [.link "A" "B", .link "A" "A", .link "X" "A"]
    let after := links.replaceDependents "A" ["C", "A", "C"]
    after.dependents "A" = ["C", "A"] ∧ after.precedents "A" = ["X", "A"] ∧
      after.precedents "B" = [] ∧ after.size = 3 := by decide +kernel

end Worksheet.Links
