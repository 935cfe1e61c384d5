import Worksheet.Proofs.Links.Replacement
import Worksheet.Proofs.Links.Walk

/-!
# Circles that a replacement makes

To replace the precedents of a cell changes only the links that lead to it.  A path
that is there afterwards and was not before therefore goes through the cell.  So a
graph without circles has none afterwards either, unless one runs through the cell
itself (`Consistent.acyclic_replacePrecedents`), and there is one through the cell if
and only if one of the new precedents is the cell or is fed by it
(`Consistent.feeds_replacePrecedents_iff`).
-/

namespace Worksheet.Links

open Relation

variable {links : Links} {t : String} {sources : List String}

theorem Consistent.leads_replacePrecedents_self (hlinks : links.Consistent) {s : String} :
    (links.replacePrecedents t sources).Leads s t ↔ s ∈ sources := by
  rw [hlinks.leads_replacePrecedents, if_pos rfl]

theorem Consistent.leads_replacePrecedents_of_ne (hlinks : links.Consistent) {s u : String}
    (hu : u ≠ t) : (links.replacePrecedents t sources).Leads s u ↔ links.Leads s u := by
  rw [hlinks.leads_replacePrecedents, if_neg hu]

/-- A path that goes through the changed cell or was there before. -/
theorem Consistent.feeds_or_through (hlinks : links.Consistent) {s u : String}
    (hfeeds : (links.replacePrecedents t sources).Feeds s u) :
    links.Feeds s u ∨ ((links.replacePrecedents t sources).Reaches s t ∧
      (links.replacePrecedents t sources).Reaches t u) := by
  induction hfeeds with
  | @single u hstep =>
      by_cases hu : u = t
      · subst hu
        exact Or.inr ⟨ReflTransGen.single hstep, ReflTransGen.refl⟩
      · exact Or.inl (TransGen.single ((hlinks.leads_replacePrecedents_of_ne hu).mp hstep))
  | @tail v u hpath hstep ih =>
      rcases ih with hbefore | ⟨hto, hfrom⟩
      · by_cases hu : u = t
        · subst hu
          exact Or.inr ⟨(hpath.tail hstep).to_reflTransGen, ReflTransGen.refl⟩
        · exact Or.inl (hbefore.tail ((hlinks.leads_replacePrecedents_of_ne hu).mp hstep))
      · exact Or.inr ⟨hto, hfrom.tail hstep⟩

theorem Consistent.acyclic_replacePrecedents (hlinks : links.Consistent)
    (hacyclic : links.Acyclic) (hcell : ¬ (links.replacePrecedents t sources).Feeds t t) :
    (links.replacePrecedents t sources).Acyclic := by
  intro cell hcircle
  rcases hlinks.feeds_or_through hcircle with hbefore | ⟨hto, hfrom⟩
  · exact hacyclic cell hbefore
  · -- The circle can as well be entered at the changed cell.
    exact hcell (TransGen.trans_left (TransGen.trans_right hfrom hcircle) hto)

/-- What is reached from the changed cell is the cell itself, or is fed by it without
the links that lead to it. -/
theorem Consistent.eq_or_feeds_of_reaches (hlinks : links.Consistent) {u : String}
    (hreach : (links.replacePrecedents t sources).Reaches t u) :
    u = t ∨ TransGen (fun s v => v ≠ t ∧ links.Leads s v) t u := by
  induction hreach with
  | refl => exact Or.inl rfl
  | @tail v u _ hstep ih =>
      by_cases hu : u = t
      · exact Or.inl hu
      · have hbefore := (hlinks.leads_replacePrecedents_of_ne hu).mp hstep
        rcases ih with rfl | hpath
        · exact Or.inr (TransGen.single ⟨hu, hbefore⟩)
        · exact Or.inr (hpath.tail ⟨hu, hbefore⟩)

theorem Consistent.reaches_of_feeds (hlinks : links.Consistent) {u : String}
    (hpath : TransGen (fun s v => v ≠ t ∧ links.Leads s v) t u) :
    (links.replacePrecedents t sources).Reaches t u := by
  induction hpath with
  | single hstep =>
      exact ReflTransGen.single ((hlinks.leads_replacePrecedents_of_ne hstep.1).mpr hstep.2)
  | tail _ hstep ih => exact ih.tail ((hlinks.leads_replacePrecedents_of_ne hstep.1).mpr hstep.2)

theorem Consistent.feeds_replacePrecedents_iff (hlinks : links.Consistent) :
    (links.replacePrecedents t sources).Feeds t t ↔
      ∃ s ∈ sources, s = t ∨ TransGen (fun s v => v ≠ t ∧ links.Leads s v) t s := by
  constructor
  · intro hcircle
    -- Only the last link of the circle leads to the changed cell, so only it is new.
    obtain ⟨s, hreach, hstep⟩ := TransGen.tail'_iff.mp hcircle
    exact ⟨s, hlinks.leads_replacePrecedents_self.mp hstep, hlinks.eq_or_feeds_of_reaches hreach⟩
  · rintro ⟨s, hs, rfl | hpath⟩
    · exact TransGen.single (hlinks.leads_replacePrecedents_self.mpr hs)
    · exact TransGen.tail' (hlinks.reaches_of_feeds hpath)
        (hlinks.leads_replacePrecedents_self.mpr hs)

end Worksheet.Links
