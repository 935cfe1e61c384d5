import Std.Data.ExtTreeSet
import Worksheet.Links

/-!
# The order of recomputation

When a cell changes, every cell that uses it has to be recomputed, directly or
through others, and each one only after all that it uses.  `Links.recomputeOrder`
gives such an order for several changed cells, or the changed cell through which a
circle of links runs.

The order comes from a depth-first walk along the dependents.  A cell is put in
front of the order once all of its dependents are in it.  To come back to the cell
at which the walk began is to have found a circle.

The walk keeps its own stack, so its length is bounded by the memory and not by
the depth of calls.  Each step shortens a list of pending cells, or moves a list
from the cells not yet seen to the stack; `potential` counts both, and so the walk
ends on every graph.
-/

namespace Worksheet

/-- A circle of links through a cell: the cell would use itself. -/
structure CircularReference where
  cell : String
  deriving Repr, DecidableEq, Inhabited

/-- A circular reference in words. -/
def CircularReference.message (circle : CircularReference) : String :=
  s!"circular dependency through cell {circle.cell}"

namespace Links

/-- The cells that a walk has come to. -/
abbrev Seen := Std.ExtTreeSet String

/-- A cell on the stack of a walk, with the dependents that are still to visit. -/
structure Frame where
  cell : String
  pending : List String
  deriving Repr, DecidableEq, Inhabited

/-! ## Why a walk ends -/

/-- The work behind one cell: none once the cell has been seen. -/
def unseenWeight (seen : Seen) (entry : String × List String) : Nat :=
  if seen.contains entry.1 then 0 else 2 * entry.2.length

/-- The work that the unseen cells of a list may still bring. -/
def unseenWork (seen : Seen) : List (String × List String) → Nat
  | [] => 0
  | entry :: rest => unseenWeight seen entry + unseenWork seen rest

/-- The work that waits on the stack: two steps for each pending dependent, and one
to take each cell off. -/
def stackWork : List Frame → Nat
  | [] => 0
  | frame :: rest => 2 * frame.pending.length + 1 + stackWork rest

/-- The work that is left for a walk, on the stack and behind the unseen cells. -/
def potential (links : Links) (stack : List Frame) (seen : Seen) : Nat :=
  stackWork stack + unseenWork seen links.dependentsOf.toList

theorem unseenWeight_insert_le (seen : Seen) (cell : String) (entry : String × List String) :
    unseenWeight (seen.insert cell) entry ≤ unseenWeight seen entry := by
  unfold unseenWeight
  by_cases hseen : seen.contains entry.1 = true
  · simp [Std.ExtTreeSet.contains_insert, hseen]
  · rw [if_neg hseen]
    split
    · exact Nat.zero_le _
    · exact Nat.le_refl _

theorem unseenWork_insert_le (seen : Seen) (cell : String) (entries : List (String × List String)) :
    unseenWork (seen.insert cell) entries ≤ unseenWork seen entries := by
  induction entries with
  | nil => exact Nat.le_refl _
  | cons entry rest ih => exact Nat.add_le_add (unseenWeight_insert_le seen cell entry) ih

/-- To see a cell is to take its list out of the unseen work. -/
theorem unseenWork_insert_add_le {seen : Seen} {cell : String} {list : List String}
    {entries : List (String × List String)} (hmem : (cell, list) ∈ entries)
    (hunseen : cell ∉ seen) :
    unseenWork (seen.insert cell) entries + 2 * list.length ≤ unseenWork seen entries := by
  induction entries with
  | nil => cases hmem
  | cons entry rest ih =>
      simp only [unseenWork]
      rcases List.mem_cons.mp hmem with heq | hmem
      · subst heq
        have hnow : unseenWeight (seen.insert cell) (cell, list) = 0 := by simp [unseenWeight]
        have hbefore : unseenWeight seen (cell, list) = 2 * list.length := by
          simp [unseenWeight, hunseen]
        have hrest := unseenWork_insert_le seen cell rest
        omega
      · have hhead := unseenWeight_insert_le seen cell entry
        have htail := ih hmem
        omega

theorem unseenWork_insert_dependents_le (links : Links) {seen : Seen} {cell : String}
    (hunseen : cell ∉ seen) :
    unseenWork (seen.insert cell) links.dependentsOf.toList +
        2 * (links.dependents cell).length ≤
      unseenWork seen links.dependentsOf.toList := by
  unfold dependents Neighbours.of
  rw [Std.ExtTreeMap.getD_eq_getD_getElem?]
  cases hlist : links.dependentsOf[cell]? with
  | none => simpa using unseenWork_insert_le seen cell links.dependentsOf.toList
  | some list =>
      exact unseenWork_insert_add_le
        (Std.ExtTreeMap.mem_toList_iff_getElem?_eq_some.mpr hlist) hunseen

/-! ## The walk -/

/-- Goes on with a walk that began at `root`.  The result is the cells seen and the
order so far. -/
def walk (links : Links) (root : String) (stack : List Frame) (seen : Seen)
    (order : List String) : Except CircularReference (Seen × List String) :=
  match stack with
  | [] => .ok (seen, order)
  | ⟨cell, []⟩ :: stack => walk links root stack seen (cell :: order)
  | ⟨cell, dependent :: pending⟩ :: stack =>
      if dependent = root then .error ⟨root⟩
      else if _hseen : dependent ∈ seen then walk links root (⟨cell, pending⟩ :: stack) seen order
      else
        walk links root (⟨dependent, links.dependents dependent⟩ :: ⟨cell, pending⟩ :: stack)
          (seen.insert dependent) order
termination_by potential links stack seen
decreasing_by
  · simp only [potential, stackWork, List.length_nil]
    omega
  · simp only [potential, stackWork, List.length_cons]
    omega
  · have := unseenWork_insert_dependents_le links ‹dependent ∉ seen›
    simp only [potential, stackWork, List.length_cons]
    omega

/-- Walks from `root` along its dependents. -/
def visit (links : Links) (root : String) (seen : Seen) (order : List String) :
    Except CircularReference (Seen × List String) :=
  walk links root [⟨root, links.dependents root⟩] (seen.insert root) order

/-- Walks from each of some roots that no earlier walk has come to. -/
def visitAll (links : Links) (roots : List String) :
    Except CircularReference (Seen × List String) :=
  roots.foldlM
    (fun (seen, order) root =>
      if root ∈ seen then pure (seen, order) else links.visit root seen order)
    (∅, [])

/-- The cells to recompute after some cells have changed, the changed ones
included, each before all of its dependents. -/
def recomputeOrder (links : Links) (changed : List String) :
    Except CircularReference (List String) :=
  (links.visitAll changed).map Prod.snd

end Links

end Worksheet
