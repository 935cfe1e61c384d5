import Worksheet.Proofs.Links.Changes

/-!
# Undoing changes of precedents

The precedents of a cell can be restored at any later time, after any changes.  What is
known about the result without knowing the changes is `Links.PutsBack`: the cell has its
saved precedents again, each in a list of dependents where the cell is back at its place
if the others have kept theirs, and no other link is touched.

If only links to the cell have changed since the save, the graph is the one of the save
(`Links.putsBack_after`).
-/

namespace Worksheet.Links

/-- What to expect of restoring the precedents of `cell`, saved from the graph `saved`,
on a later graph `now`.  Lists without the cell are taken by a filter. -/
structure PutsBack (cell : String) (saved now restored : Links) : Prop where
  precedents_eq : restored.precedents cell = saved.precedents cell
  contains_apart : ∀ r t, t ≠ cell → restored.contains r t = now.contains r t
  dependents_apart : ∀ r, (restored.dependents r).filter (· != cell) =
    (now.dependents r).filter (· != cell)
  precedents_apart : ∀ t, t ≠ cell → restored.precedents t = now.precedents t
  back_in_place : ∀ r ∈ saved.precedents cell,
    (now.dependents r).filter (· != cell) = (saved.dependents r).filter (· != cell) →
      restored.dependents r = saved.dependents r

variable {saved now : Links} {cell : String}

theorem contains_eq_of_filter_eq {first second : Links} {r t : String} (ht : t ≠ cell)
    (hothers : (first.dependents r).filter (· != cell) =
      (second.dependents r).filter (· != cell)) : first.contains r t = second.contains r t := by
  have hmem : ∀ links : Links, links.contains r t =
      ((links.dependents r).filter (· != cell)).contains t := by
    intro links
    rw [contains, Bool.eq_iff_iff]
    simp [ht]
  rw [hmem, hmem, hothers]

theorem Consistent.putsBack (hsaved : saved.Consistent) (hnow : now.Consistent) (cell : String) :
    PutsBack cell saved now (now.restorePrecedents (saved.savePrecedents cell)) := by
  have hrestored := hnow.restorePrecedents (saved.savePrecedents cell)
  have hagree := hnow.agreeApart_restorePrecedents (saved.savePrecedents cell)
  -- A graph holds no name twice in a list, so that to erase the cell is to filter it out.
  have hothers : ∀ r, ((now.restorePrecedents (saved.savePrecedents cell)).dependents r).filter
      (· != cell) = (now.dependents r).filter (· != cell) := by
    intro r
    rw [← (hrestored.nodup_dependents r).erase_eq_filter,
      ← (hnow.nodup_dependents r).erase_eq_filter]
    exact hagree.dependents_eq r
  constructor
  · exact hsaved.precedents_restore_save hnow cell
  · exact fun r t ht => contains_eq_of_filter_eq ht (hothers r)
  · exact hothers
  · exact hagree.precedents_eq
  · intro r _ hsame
    rw [← (hsaved.nodup_dependents r).erase_eq_filter,
      ← (hnow.nodup_dependents r).erase_eq_filter] at hsame
    exact hsaved.dependents_restore_save hnow hsame

/-- The precedents that were saved at some time can be restored at any later time.  If only
links to the cell have changed in between, everything is as it was. -/
theorem putsBack_after (before between : List LinkChange) (cell : String) :
    let saved := (∅ : Links).after before
    let now := saved.after between
    let restored := now.restorePrecedents (saved.savePrecedents cell)
    PutsBack cell saved now restored ∧
      ((∀ change ∈ between, change.LeadsTo cell) → restored = saved) := by
  intro saved now restored
  have hsaved : saved.Consistent := consistent_after before
  have hnow : now.Consistent := hsaved.after between
  refine ⟨hsaved.putsBack hnow cell, fun hbetween => ?_⟩
  exact (hsaved.agreeApart_after hbetween).restorePrecedents_savePrecedents hsaved hnow

/-- The first restore is stale: it knows a link that was never there, and a place beyond the
end of a list. -/
theorem putsBack_after_stale_restore :
    let before : List LinkChange :=
      [.link "a" "b", .link "a" "c", .link "x" "d", .link "x" "b", .link "b" "b"]
    let between : List LinkChange :=
      [.replacePrecedents "b" ["a", "b", "y"], .restore ⟨"b", [("y", 5), ("a", 1)]⟩,
        .unlink "a" "b"]
    let saved := (∅ : Links).after before
    let now := saved.after between
    (now.dependents "a", now.precedents "b") = (["c"], ["y"]) ∧
      (∀ change ∈ between, change.LeadsTo "b") ∧
      now.restorePrecedents (saved.savePrecedents "b") = saved := by
  intro before between saved now
  have hbetween : ∀ change ∈ between, change.LeadsTo "b" := by
    simp [between, LinkChange.LeadsTo]
  exact ⟨by decide +kernel, hbetween, (putsBack_after before between "b").2 hbetween⟩

end Worksheet.Links
