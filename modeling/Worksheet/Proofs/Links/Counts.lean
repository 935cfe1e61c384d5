import Mathlib.Algebra.BigOperators.Group.Finset.Basic
import Mathlib.Algebra.Order.BigOperators.Group.Finset
import Mathlib.Data.Set.Card
import Worksheet.Proofs.Links.Changes

/-!
# What a graph counts

A graph answers for its links in several ways: by the lists of both directions, by
looking up a single link, and by numbers that it keeps or reads off its lists.  After any
changes all of them tell the same links (`Links.inStep_after`), stale restores, the empty
name and links of a cell to itself included.

The number of links is kept apart from the lists and is only ever counted up and down.  It
is right because every change of it goes with one pair of cells (`Links.Consistent`), and
so there is always a link to take away when it is counted down.
-/

namespace Worksheet.Links

open Finset

/-- Whatever a graph is asked, the answer is about the links that it contains. -/
structure InStep (links : Links) : Prop where
  contains_iff_dependent : ∀ s t, links.contains s t = true ↔ t ∈ links.dependents s
  contains_iff_precedent : ∀ s t, links.contains s t = true ↔ s ∈ links.precedents t
  nodup_dependents : ∀ s, (links.dependents s).Nodup
  nodup_precedents : ∀ t, (links.precedents t).Nodup
  size_eq : {pair : String × String | links.contains pair.1 pair.2 = true}.encard = links.size
  precedentCount_eq : ∀ t, {s | links.contains s t = true}.encard = links.precedentCount t
  /-- Cell by cell, the counts of precedents add up to the number of links. -/
  sum_precedentCount :
    ∑ t ∈ links.precedentsOf.keys.toFinset, links.precedentCount t = links.size
  hasDependents_iff : ∀ s, links.hasDependents s = true ↔ ∃ t, links.contains s t = true
  hasPrecedents_iff : ∀ t, links.hasPrecedents t = true ↔ ∃ s, links.contains s t = true
  isEmpty_iff : links.isEmpty = true ↔ ∀ s t, links.contains s t = false
  /-- A link that is taken away has been counted.  Whoever replaces or restores links takes
  the old ones away one by one, so this is about the graphs on the way as well. -/
  size_unlink : ∀ s t, links.contains s t = true → (links.unlink s t).size + 1 = links.size
  pruned_dependents : ∀ cell : String, links.dependentsOf[cell]? ≠ some []
  pruned_precedents : ∀ cell : String, links.precedentsOf[cell]? ≠ some []

variable {links : Links}

theorem mem_pairs_iff_contains {pair : String × String} :
    pair ∈ links.pairs ↔ links.contains pair.1 pair.2 = true := by
  obtain ⟨s, t⟩ := pair
  rw [mem_pairs, contains_eq_true_iff]
  rfl

theorem Consistent.contains_iff (hlinks : links.Consistent) {s t : String} :
    links.contains s t = true ↔ s ∈ links.precedents t := by
  rw [contains_eq_true_iff, hlinks.mem_precedents_iff]

/-! ## The links to one cell -/

/-- The links to a cell are as many as it has precedents. -/
theorem Consistent.card_filter_pairs (hlinks : links.Consistent) (t : String) :
    (links.pairs.filter fun pair => pair.2 = t).card = links.precedentCount t := by
  have himage : (links.pairs.filter fun pair => pair.2 = t) =
      ((links.precedents t).map fun s => (s, t)).toFinset := by
    ext ⟨s, u⟩
    rw [mem_filter, mem_pairs_iff_contains, hlinks.contains_iff]
    rw [List.mem_toFinset, List.mem_map]
    constructor
    · rintro ⟨hs, rfl⟩
      exact ⟨s, hs, rfl⟩
    · rintro ⟨source, hsource, heq⟩
      obtain ⟨rfl, rfl⟩ := Prod.mk.inj heq
      exact ⟨hsource, rfl⟩
  have hinjective : Function.Injective fun s : String => (s, t) := by
    intro first second heq
    exact (Prod.mk.inj heq).1
  rw [himage, List.toFinset_card_of_nodup ((hlinks.nodup_precedents t).map hinjective),
    List.length_map]
  rfl

theorem Consistent.sum_precedentCount (hlinks : links.Consistent) :
    ∑ t ∈ links.precedentsOf.keys.toFinset, links.precedentCount t = links.size := by
  have hkeys : ∀ pair ∈ links.pairs, pair.2 ∈ links.precedentsOf.keys.toFinset := by
    intro pair hpair
    have hprecedent := hlinks.contains_iff.mp (mem_pairs_iff_contains.mp hpair)
    rw [List.mem_toFinset, Std.ExtTreeMap.mem_keys, hlinks.pruned_precedents.mem_iff]
    exact List.ne_nil_of_mem hprecedent
  calc ∑ t ∈ links.precedentsOf.keys.toFinset, links.precedentCount t
      = ∑ t ∈ links.precedentsOf.keys.toFinset,
          (links.pairs.filter fun pair => pair.2 = t).card :=
        sum_congr rfl fun t _ => (hlinks.card_filter_pairs t).symm
    _ = links.pairs.card := (card_eq_sum_card_fiberwise hkeys).symm
    _ = links.size := hlinks.size_eq.symm

/-! ## All counts -/

theorem Consistent.size_unlink (hlinks : links.Consistent) {s t : String}
    (hcontains : links.contains s t = true) : (links.unlink s t).size + 1 = links.size := by
  have hpositive : 0 < links.size := by
    rw [hlinks.size_eq]
    exact card_pos.mpr ⟨(s, t), mem_pairs_iff_contains.mpr hcontains⟩
  have hcounted : (links.unlink s t).size = links.size - 1 := by
    rw [Links.unlink, if_pos hcontains]
  omega

theorem Consistent.isEmpty_iff (hlinks : links.Consistent) :
    links.isEmpty = true ↔ ∀ s t, links.contains s t = false := by
  rw [isEmpty, beq_iff_eq, hlinks.size_eq, card_eq_zero, eq_empty_iff_forall_notMem]
  constructor
  · intro hnone s t
    rw [← Bool.not_eq_true]
    exact fun hcontains => hnone (s, t) (mem_pairs_iff_contains.mpr hcontains)
  · intro hnone pair hpair
    exact absurd (mem_pairs_iff_contains.mp hpair) (by rw [hnone]; decide)

theorem not_isEmpty_eq_true_iff (list : List String) :
    (!list.isEmpty) = true ↔ ∃ name, name ∈ list := by
  rw [Bool.not_eq_true', List.isEmpty_eq_false_iff_exists_mem]

theorem Consistent.inStep (hlinks : links.Consistent) : links.InStep where
  contains_iff_dependent _ _ := contains_eq_true_iff
  contains_iff_precedent _ _ := hlinks.contains_iff
  nodup_dependents := hlinks.nodup_dependents
  nodup_precedents := hlinks.nodup_precedents
  size_eq := by
    have hpairs : {pair : String × String | links.contains pair.1 pair.2 = true} =
        (links.pairs : Set (String × String)) := by
      ext pair
      exact mem_pairs_iff_contains.symm
    rw [hpairs, Set.encard_coe_eq_coe_finsetCard, hlinks.size_eq]
  precedentCount_eq t := by
    have hprecedents : {s | links.contains s t = true} =
        ((links.precedents t).toFinset : Set String) := by
      ext s
      rw [mem_coe, List.mem_toFinset]
      exact hlinks.contains_iff
    rw [hprecedents, Set.encard_coe_eq_coe_finsetCard,
      List.toFinset_card_of_nodup (hlinks.nodup_precedents t)]
    rfl
  sum_precedentCount := hlinks.sum_precedentCount
  hasDependents_iff s := by
    simp only [contains_eq_true_iff]
    exact not_isEmpty_eq_true_iff (links.dependents s)
  hasPrecedents_iff t := by
    simp only [hlinks.contains_iff]
    exact not_isEmpty_eq_true_iff (links.precedents t)
  isEmpty_iff := hlinks.isEmpty_iff
  size_unlink _ _ := hlinks.size_unlink
  pruned_dependents := hlinks.pruned_dependents
  pruned_precedents := hlinks.pruned_precedents

/-- After any changes, whatever they restore, the two directions of a graph and its counts
are in step. -/
theorem inStep_after (changes : List LinkChange) : ((∅ : Links).after changes).InStep :=
  (consistent_after changes).inStep

end Worksheet.Links
