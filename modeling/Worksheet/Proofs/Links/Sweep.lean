import Worksheet.Proofs.Links.Walk

/-!
# Walks from several roots

The order of recomputation of several cells is put together from walks, one from each
cell that no earlier walk has come to.  The later walks put their cells in front of the
order of the earlier ones and skip what these have seen.

Two things follow.  If there is an order, it holds what can be reached from the cells
and nothing else, each cell once and behind those that lead to it
(`orderOf_of_recomputeOrder`).  There is none if and only if one of the cells lies on a
circle and cannot be reached from a cell before it, and then the first such cell is
reported (`recomputeOrder_eq_error_iff`).

## Strategy

`Swept` is what holds between two walks: the invariant `Settled` of a single walk, and
that the cells seen are those that can be reached from the roots so far.  A root that is
unseen can therefore not be reached from an earlier one, and as what has been seen is
closed under links, a circle through the root has not been seen either.  So the cells
that a walk skips never hide a circle from it.
-/

namespace Worksheet.Links

open Relation

variable {links : Links} {roots : List String} {root : String}

/-! ## One root after others -/

/-- Goes on with a root after earlier ones: what has been seen is not walked again. -/
def visitNext (links : Links) (result : Seen × List String) (root : String) :
    Except CircularReference (Seen × List String) :=
  if root ∈ result.1 then pure result else links.visit root result.1 result.2

theorem visitAll_eq (links : Links) (roots : List String) :
    links.visitAll roots = roots.foldlM links.visitNext (∅, []) := rfl

theorem visitAll_append_singleton (links : Links) (roots : List String) (root : String) :
    links.visitAll (roots ++ [root]) =
      links.visitAll roots >>= fun result => links.visitNext result root := by
  simp [visitAll_eq]

/-- What holds between two walks, after the walks from some roots. -/
structure Swept (links : Links) (roots : List String) (result : Seen × List String) : Prop where
  settled : links.Settled result.1 result.2
  mem_iff : ∀ cell, cell ∈ result.2 ↔ ∃ root ∈ roots, links.Reaches root cell

/-- Whether a walk from a root, after walks from earlier ones, comes back to the root:
it lies on a circle, and no earlier walk has come to it. -/
def ComesBack (links : Links) (earlier : List String) (root : String) : Prop :=
  links.Feeds root root ∧ ∀ other ∈ earlier, ¬ links.Reaches other root

variable {result : Seen × List String}

theorem swept_nil (links : Links) : links.Swept [] (∅, []) where
  settled := settled_empty links
  mem_iff := by simp

theorem Swept.mem_seen_iff (hswept : links.Swept roots result) {cell : String} :
    cell ∈ result.1 ↔ ∃ root ∈ roots, links.Reaches root cell :=
  (hswept.settled.mem_seen_iff cell).trans (hswept.mem_iff cell)

theorem exists_reaches_append_singleton {cell : String} :
    (∃ other ∈ roots ++ [root], links.Reaches other cell) ↔
      (∃ other ∈ roots, links.Reaches other cell) ∨ links.Reaches root cell := by
  simp [or_and_right, exists_or]

/-- What has been swept after one more root: what was before and what the root leads to. -/
theorem Swept.extend {next : Seen × List String} {found : List String}
    (hswept : links.Swept roots result) (hsettled : links.Settled next.1 next.2)
    (horder : next.2 = found ++ result.2) (hfound : ∀ cell ∈ found, links.Reaches root cell)
    (hroot : root ∈ next.2) : links.Swept (roots ++ [root]) next := by
  refine ⟨hsettled, fun cell => ?_⟩
  rw [exists_reaches_append_singleton, ← hswept.mem_iff]
  constructor
  · intro hcell
    rw [horder] at hcell
    exact (List.mem_append.mp hcell).symm.imp_right (hfound cell)
  · rintro (hcell | hreach)
    · rw [horder]
      exact List.mem_append_right _ hcell
    · exact reaches_of_closed hsettled.closed hroot hreach

theorem Swept.visitNext_ok {next : Seen × List String} (hswept : links.Swept roots result)
    (hok : links.visitNext result root = .ok next) : links.Swept (roots ++ [root]) next := by
  unfold visitNext at hok
  split at hok
  · rename_i hseen
    cases hok
    have hroot := (hswept.settled.mem_seen_iff root).mp hseen
    exact hswept.extend hswept.settled (List.nil_append _).symm (by simp) hroot
  · rename_i hunseen
    obtain ⟨hsettled, -, found, horder, hfound, hhead⟩ := hswept.settled.visit_ok hunseen hok
    refine hswept.extend hsettled horder hfound ?_
    rw [horder]
    exact List.mem_append_left _ (List.mem_of_head? hhead)

/-- A root that no walk has come to is walked from, and the walk fails if and only if the
root lies on a circle. -/
theorem Swept.visitNext_error_iff {circle : CircularReference}
    (hswept : links.Swept roots result) :
    links.visitNext result root = .error circle ↔
      circle = ⟨root⟩ ∧ links.ComesBack roots root := by
  have hunseen_iff : root ∉ result.1 ↔ ∀ other ∈ roots, ¬ links.Reaches other root := by
    rw [hswept.mem_seen_iff]
    simp
  unfold visitNext ComesBack
  rw [← hunseen_iff]
  constructor
  · intro herror
    split at herror
    · cases herror
    · rename_i hunseen
      obtain ⟨hcircle, hfeeds⟩ := hswept.settled.feeds_of_visit_error hunseen herror
      exact ⟨hcircle, hfeeds, hunseen⟩
  · rintro ⟨rfl, hfeeds, hunseen⟩
    rw [if_neg hunseen]
    -- A walk that ends well would have left no circle through its root.
    cases hvisit : links.visit root result.1 result.2 with
    | error found => rw [(hswept.settled.feeds_of_visit_error hunseen hvisit).1]
    | ok next => exact absurd hfeeds (hswept.settled.visit_ok hunseen hvisit).2.1

/-! ## All roots -/

theorem swept_of_visitAll (hok : links.visitAll roots = .ok result) :
    links.Swept roots result := by
  -- The last root is taken off, because `Swept` is about the roots that came before.
  induction roots using List.reverseRecOn generalizing result with
  | nil =>
      cases hok
      exact swept_nil links
  | append_singleton roots root ih =>
      rw [visitAll_append_singleton] at hok
      obtain ⟨before, hbefore, hnext⟩ := bind_eq_ok_iff.mp hok
      exact (ih hbefore).visitNext_ok hnext

/-- Whether none of the walks from some roots comes back to its root. -/
def NoneComesBack (links : Links) (roots : List String) : Prop :=
  ∀ earlier root later, roots = earlier ++ root :: later → ¬ links.ComesBack earlier root

theorem exists_visitAll_of_append {later : List String}
    (hok : links.visitAll (roots ++ later) = .ok result) :
    ∃ before, links.visitAll roots = .ok before := by
  rw [visitAll_eq, List.foldlM_append] at hok
  obtain ⟨before, hbefore, -⟩ := bind_eq_ok_iff.mp hok
  exact ⟨before, hbefore⟩

/-- The walks fail at the first root whose walk comes back to it. -/
theorem visitAll_eq_error_iff {circle : CircularReference} :
    links.visitAll roots = .error circle ↔
      ∃ earlier later, roots = earlier ++ circle.cell :: later ∧
        (∃ before, links.visitAll earlier = .ok before) ∧
        links.ComesBack earlier circle.cell := by
  rw [visitAll_eq, foldlM_eq_error_iff]
  constructor
  · rintro ⟨earlier, root, later, before, rfl, hbefore, herror⟩
    obtain ⟨rfl, hback⟩ := (swept_of_visitAll hbefore).visitNext_error_iff.mp herror
    exact ⟨earlier, later, rfl, ⟨before, hbefore⟩, hback⟩
  · rintro ⟨earlier, later, hroots, ⟨before, hbefore⟩, hback⟩
    refine ⟨earlier, circle.cell, later, before, hroots, hbefore, ?_⟩
    exact (swept_of_visitAll hbefore).visitNext_error_iff.mpr ⟨rfl, hback⟩

theorem exists_visitAll_iff :
    (∃ result, links.visitAll roots = .ok result) ↔ links.NoneComesBack roots := by
  constructor
  · rintro ⟨result, hok⟩ earlier root later rfl hback
    have herror : links.visitAll (earlier ++ root :: later) = .error ⟨root⟩ :=
      visitAll_eq_error_iff.mpr ⟨earlier, later, rfl, exists_visitAll_of_append hok, hback⟩
    rw [hok] at herror
    cases herror
  · intro hnone
    cases hvisits : links.visitAll roots with
    | ok result => exact ⟨result, rfl⟩
    | error circle =>
        obtain ⟨earlier, later, hroots, -, hback⟩ := visitAll_eq_error_iff.mp hvisits
        exact absurd hback (hnone earlier circle.cell later hroots)

/-! ## The end of a walk -/

/-- A walk that is given up after a number of turns. -/
def walkFor (links : Links) (root : String) :
    Nat → List Frame → Seen → List String → Option (Except CircularReference (Seen × List String))
  | 0, _, _, _ => none
  | _ + 1, [], seen, order => some (.ok (seen, order))
  | turns + 1, ⟨cell, []⟩ :: stack, seen, order =>
      walkFor links root turns stack seen (cell :: order)
  | turns + 1, ⟨cell, next :: pending⟩ :: stack, seen, order =>
      if next = root then some (.error ⟨root⟩)
      else if next ∈ seen then walkFor links root turns (⟨cell, pending⟩ :: stack) seen order
      else
        walkFor links root turns (⟨next, links.dependents next⟩ :: ⟨cell, pending⟩ :: stack)
          (seen.insert next) order

/-- Every turn takes from the potential, so a walk with more turns than that ends. -/
theorem walkFor_eq_walk {stack : List Frame} {seen : Seen} {order : List String} {turns : Nat}
    (hturns : links.potential stack seen < turns) :
    links.walkFor root turns stack seen order = some (links.walk root stack seen order) := by
  -- The cases are those of `walk`, and each of its calls has a smaller potential.
  induction turns generalizing stack seen order with
  | zero => exact absurd hturns (Nat.not_lt_zero _)
  | succ turns ih =>
      rcases stack with _ | ⟨⟨cell, _ | ⟨next, pending⟩⟩, stack⟩
      · rw [walk, walkFor]
      · rw [walk, walkFor]
        apply ih
        simp only [potential, stackWork, List.length_nil] at hturns ⊢
        omega
      · rw [walk, walkFor]
        simp only [potential, stackWork, List.length_cons] at hturns
        split
        · rfl
        · split
          · apply ih
            simp only [potential, stackWork]
            omega
          · rename_i hunseen
            have hwork := unseenWork_insert_dependents_le links hunseen
            apply ih
            simp only [potential, stackWork]
            omega

/-! ## Orders -/

/-- What an order in which some cells and all that depend on them are recomputed has to
be.  It cannot put a cell behind another that leads to it if the two lie on a circle. -/
structure OrderOf (links : Links) (changed order : List String) : Prop where
  nodup : order.Nodup
  mem_iff : ∀ cell, cell ∈ order ↔ ∃ name ∈ changed, links.Reaches name cell
  follows : ∀ s ∈ order, ∀ t, links.Leads s t →
    t ∈ order ∧ (order.idxOf s < order.idxOf t ∨ links.Feeds t s)

theorem idxOf_lt_of_pairwise {order : List String} {holds : String → String → Prop}
    (hordered : order.Pairwise holds) {s t : String} (hs : s ∈ order) (ht : t ∈ order)
    (hne : s ≠ t) (hnot : ¬ holds t s) : order.idxOf s < order.idxOf t := by
  have hlt : order.idxOf s < order.length := List.idxOf_lt_length_of_mem hs
  have hlt' : order.idxOf t < order.length := List.idxOf_lt_length_of_mem ht
  rcases Nat.lt_trichotomy (order.idxOf s) (order.idxOf t) with hbefore | heq | hbehind
  · exact hbefore
  · exact absurd ((List.idxOf_inj hs).mp heq) hne
  · have hpair := List.pairwise_iff_getElem.mp hordered _ _ hlt' hlt hbehind
    rw [List.getElem_idxOf, List.getElem_idxOf] at hpair
    exact absurd hpair hnot

theorem Swept.orderOf (hswept : links.Swept roots result) : links.OrderOf roots result.2 where
  nodup := hswept.settled.nodup
  mem_iff := hswept.mem_iff
  follows s hs t hleads := by
    have ht := hswept.settled.closed s hs t hleads
    refine ⟨ht, ?_⟩
    by_cases hne : s = t
    · subst hne
      exact Or.inr (TransGen.single hleads)
    -- `InOrder` says nothing of two cells that reach each other.
    · by_cases hback : links.Reaches t s
      · exact Or.inr ((reflTransGen_iff_eq_or_transGen.mp hback).resolve_left hne)
      · refine Or.inl (idxOf_lt_of_pairwise hswept.settled.ordered hs ht hne fun hinOrder => ?_)
        exact hback (hinOrder hleads)

theorem OrderOf.idxOf_lt {changed order : List String} (horder : links.OrderOf changed order)
    (hacyclic : links.Acyclic) {s t : String} (hs : s ∈ order) (hleads : links.Leads s t) :
    order.idxOf s < order.idxOf t :=
  (horder.follows s hs t hleads).2.resolve_right fun hfeeds => hacyclic t (hfeeds.tail hleads)

theorem recomputeOrder_eq_ok_iff {order : List String} :
    links.recomputeOrder roots = .ok order ↔ ∃ seen, links.visitAll roots = .ok (seen, order) := by
  rw [recomputeOrder, map_eq_ok_iff, Prod.exists]
  simp

/-- An order of recomputation is complete and holds nothing twice, and it puts every cell
behind those that lead to it as far as links run in no circle.  A single cell comes first
in its order. -/
theorem orderOf_of_recomputeOrder {changed order : List String}
    (hok : links.recomputeOrder changed = .ok order) :
    links.OrderOf changed order ∧
      (links.Acyclic → ∀ s ∈ order, ∀ t, links.Leads s t → order.idxOf s < order.idxOf t) ∧
      ∀ cell, changed = [cell] → order.head? = some cell := by
  obtain ⟨seen, hvisits⟩ := recomputeOrder_eq_ok_iff.mp hok
  have horder : links.OrderOf changed order := (swept_of_visitAll hvisits).orderOf
  refine ⟨horder, fun hacyclic s hs t hleads => horder.idxOf_lt hacyclic hs hleads, ?_⟩
  rintro cell rfl
  exact (orderFrom_of_recomputeOrder_ok hok).head

/-- `D` and `E` lie on a circle, which the changed cells lead to and are not part of. -/
theorem orderOf_of_recomputeOrder_beside_circle :
    let pairs := [("A", "C"), ("B", "C"), ("C", "D"), ("D", "E"), ("E", "D")]
    let links : Links := pairs.foldl (fun links pair => links.link pair.1 pair.2) ∅
    links.recomputeOrder ["C", "A", "B", "C"] = .ok ["B", "A", "C", "D", "E"] ∧
      links.OrderOf ["C", "A", "B", "C"] ["B", "A", "C", "D", "E"] := by
  intro pairs links
  have hok : links.recomputeOrder ["C", "A", "B", "C"] = .ok ["B", "A", "C", "D", "E"] := by
    decide +kernel
  exact ⟨hok, (orderOf_of_recomputeOrder hok).1⟩

/-! ## Circles -/

theorem recomputeOrder_eq_error_iff_visitAll {circle : CircularReference} :
    links.recomputeOrder roots = .error circle ↔ links.visitAll roots = .error circle :=
  map_eq_error_iff

/-- Whether a root is the first of some roots from which a walk comes back. -/
def FirstComesBack (links : Links) (roots : List String) (root : String) : Prop :=
  ∃ earlier later, roots = earlier ++ root :: later ∧ links.NoneComesBack earlier ∧
    links.ComesBack earlier root

theorem recomputeOrder_eq_error_iff {circle : CircularReference} :
    links.recomputeOrder roots = .error circle ↔ links.FirstComesBack roots circle.cell := by
  rw [recomputeOrder_eq_error_iff_visitAll, visitAll_eq_error_iff]
  simp only [exists_visitAll_iff, FirstComesBack]

theorem exists_recomputeOrder_eq_error_iff :
    (∃ circle, links.recomputeOrder roots = .error circle) ↔
      ∃ earlier root later, roots = earlier ++ root :: later ∧ links.ComesBack earlier root := by
  constructor
  · rintro ⟨circle, herror⟩
    obtain ⟨earlier, later, hroots, -, hback⟩ := recomputeOrder_eq_error_iff.mp herror
    exact ⟨earlier, circle.cell, later, hroots, hback⟩
  · rintro ⟨earlier, root, later, hroots, hback⟩
    cases hvisits : links.visitAll roots with
    | error circle => exact ⟨circle, recomputeOrder_eq_error_iff_visitAll.mpr hvisits⟩
    | ok result =>
        -- The root need not be the first that is come back to: an earlier one fails as well.
        have hnone := exists_visitAll_iff.mp ⟨result, hvisits⟩
        exact absurd hback (hnone earlier root later hroots)

/-- Where no cell uses itself, every walk comes to its end. -/
theorem Acyclic.exists_recomputeOrder (hacyclic : links.Acyclic) (roots : List String) :
    ∃ order, links.recomputeOrder roots = .ok order := by
  have hnone : links.NoneComesBack roots := fun _ root _ _ hback => hacyclic root hback.1
  obtain ⟨result, hvisits⟩ := exists_visitAll_iff.mpr hnone
  exact ⟨result.2, recomputeOrder_eq_ok_iff.mpr ⟨result.1, hvisits⟩⟩

theorem comesBack_nil : links.ComesBack [] root ↔ links.Feeds root root := by
  simp [ComesBack]

/-- There is no order of recomputation if and only if one of the changed cells lies on a
circle and is neither one of the cells before it nor reached from them.  The first such
cell is reported.  For a single cell only the circles through that cell count, and every
walk ends, whatever circles it meets. -/
theorem recomputeOrder_fails_iff (links : Links) (changed : List String) :
    (∀ circle, links.recomputeOrder changed = .error circle ↔
      links.FirstComesBack changed circle.cell) ∧
    ((∃ circle, links.recomputeOrder changed = .error circle) ↔
      ∃ earlier cell later, changed = earlier ++ cell :: later ∧ links.Feeds cell cell ∧
        ∀ other ∈ earlier, ¬ links.Reaches other cell) ∧
    (∀ start, (∃ circle, links.recomputeOrder [start] = .error circle) ↔
      links.Feeds start start) ∧
    ∀ root seen order, ∃ turns, links.walkFor root turns [⟨root, links.dependents root⟩]
      (seen.insert root) order = some (links.visit root seen order) := by
  refine ⟨fun circle => recomputeOrder_eq_error_iff, exists_recomputeOrder_eq_error_iff, ?_, ?_⟩
  · intro start
    refine ⟨fun ⟨circle, herror⟩ => (feeds_of_recomputeOrder_error herror).2, fun hfeeds => ?_⟩
    exact exists_recomputeOrder_eq_error_iff.mpr ⟨[], start, [], rfl, comesBack_nil.mpr hfeeds⟩
  · exact fun root seen order => ⟨_, walkFor_eq_walk (Nat.lt_succ_self _)⟩

end Worksheet.Links
