import Worksheet.Links.Order
import Worksheet.Proofs.Links.Walk

/-!
# The walk as a recursive search

A walk keeps the cells that it is still busy with on a stack of its own.  `Links.search` says
the same by recursion: mark the cell, search from each cell that uses it in the order in which
these came to do so, and put the cell in front.  Both fail on the same links, and where they do
not, both have seen the same cells and give the same order (`Links.visit_eq_search`).

## Strategy

A frame of the stack is a search that has been interrupted, and the frames below it are what is
to be done afterwards.  So the statement to prove is about every stack: a walk with a frame on
top searches from what the frame has pending, puts its cell in front, and goes on with the rest
of the stack (`Links.walk_push_eq`).  Its induction is that of the search, one case for each way
in which a search from some dependents can go on.

A search ends because it only ever adds to the cells seen.  Its result carries this along, as
the rest of the dependents are searched with what the first of them has left.
-/

namespace Worksheet.Links

/-! ## What a search finds -/

/-- What a search has found: the cells that have been seen by now, and the order.  A cell that
had been seen before is among them. -/
structure Found (before : Seen) where
  seen : Seen
  order : List String
  keeps : ∀ cell ∈ before, cell ∈ seen

namespace Found

variable {before seen : Seen} {cell : String}

/-- Nothing new has been found. -/
def nothing (seen : Seen) (order : List String) : Found seen := ⟨seen, order, fun _ hcell => hcell⟩

/-- Puts a cell in front, when all that it leads to has been found. -/
def finish (found : Found (seen.insert cell)) : Found seen where
  seen := found.seen
  order := cell :: found.order
  keeps other hother := found.keeps other (mem_insert_iff.mpr (Or.inr hother))

/-- What two searches have found, the second after the first. -/
def andThen (first : Found before) (second : Found first.seen) : Found before where
  seen := second.seen
  order := second.order
  keeps cell hcell := second.keeps cell (first.keeps cell hcell)

/-- The cells seen, and the order. -/
def result (found : Found before) : Seen × List String := (found.seen, found.order)

end Found

/-- With more cells seen, less is left to be done. -/
theorem unseenWork_le_of_keeps {before seen : Seen} (hkeeps : ∀ cell ∈ before, cell ∈ seen)
    (entries : List (String × List String)) :
    unseenWork seen entries ≤ unseenWork before entries := by
  induction entries with
  | nil => exact Nat.le_refl _
  | cons entry rest ih =>
      refine Nat.add_le_add ?_ ih
      unfold unseenWeight
      by_cases hbefore : before.contains entry.1 = true
      · have hseen : seen.contains entry.1 = true := hkeeps entry.1 hbefore
        rw [if_pos hbefore, if_pos hseen]
      · rw [if_neg hbefore]
        split
        · exact Nat.zero_le _
        · exact Nat.le_refl _

/-! ## The search -/

mutual

/-- Searches from a cell that has not been seen: marks it, searches from the cells that use it,
and puts it in front of the order. -/
def search (links : Links) (root cell : String) (seen : Seen) (_hunseen : cell ∉ seen)
    (order : List String) : Except CircularReference (Found seen) := do
  let found ← searchEach links root (links.dependents cell) (seen.insert cell) order
  return found.finish
termination_by unseenWork seen links.dependentsOf.toList + 1
decreasing_by
  have := unseenWork_insert_dependents_le links ‹cell ∉ seen›
  omega

/-- Searches from some cells, one after the other.  To come back to the root is to fail, and a
cell that has been seen is passed over. -/
def searchEach (links : Links) (root : String) (pending : List String) (seen : Seen)
    (order : List String) : Except CircularReference (Found seen) :=
  match pending with
  | [] => return .nothing seen order
  | next :: pending =>
      if next = root then throw ⟨root⟩
      else if hseen : next ∈ seen then searchEach links root pending seen order
      else do
        let first ← search links root next seen hseen order
        let others ← searchEach links root pending first.seen first.order
        return first.andThen others
termination_by unseenWork seen links.dependentsOf.toList + 2 * pending.length
decreasing_by
  · simp only [List.length_cons]
    omega
  · simp only [List.length_cons]
    omega
  · have := unseenWork_le_of_keeps first.keeps links.dependentsOf.toList
    simp only [List.length_cons]
    omega

end

/-! ## The walk does what the search does -/

/-- With a frame on top of any stack, a walk first does what a search does there. -/
theorem walk_push_eq (links : Links) (root : String) :
    (∀ cell seen hunseen order, ∀ stack,
      links.walk root (⟨cell, links.dependents cell⟩ :: stack) (seen.insert cell) order =
        links.search root cell seen hunseen order >>= fun found =>
          links.walk root stack found.seen found.order) ∧
    ∀ pending seen order, ∀ cell stack,
      links.walk root (⟨cell, pending⟩ :: stack) seen order =
        links.searchEach root pending seen order >>= fun found =>
          links.walk root stack found.seen (cell :: found.order) := by
  refine search.mutual_induct links root _ _ ?search ?done ?root ?passed ?pushed
  case search =>
    intro cell seen hunseen order ih stack
    rw [ih, search, bind_assoc]
    rfl
  case done =>
    intro seen order cell stack
    rw [walk, searchEach]
    rfl
  case root =>
    intro seen order pending cell stack
    rw [walk, searchEach, if_pos rfl, if_pos rfl]
    rfl
  case passed =>
    intro seen order next pending hne hseen ih cell stack
    rw [walk, searchEach, if_neg hne, if_neg hne, dif_pos hseen, dif_pos hseen, ih]
  case pushed =>
    intro seen order next pending hne hunseen ihfirst ihothers cell stack
    rw [walk, searchEach, if_neg hne, if_neg hne, dif_neg hunseen, dif_neg hunseen, ihfirst,
      bind_assoc]
    -- The frame below the new one is where the search of the others starts.
    refine bind_congr fun first => ?_
    rw [ihothers, bind_assoc]
    rfl

/-- A walk reads from the links only which cells use a cell, and in which order. -/
theorem walk_congr {links other : Links} (h : other.dependents = links.dependents) (root : String)
    (stack : List Frame) (seen : Seen) (order : List String) :
    other.walk root stack seen order = links.walk root stack seen order := by
  fun_induction walk links root stack seen order with
  | case1 seen order => rw [walk]
  | case2 seen order cell stack ih => rw [walk, ih]
  | case3 seen order cell pending stack => rw [walk, if_pos rfl]
  | case4 seen order cell next pending stack hne hseen ih =>
      rw [walk, if_neg hne, dif_pos hseen, ih]
  | case5 seen order cell next pending stack hne hseen ih =>
      rw [walk, if_neg hne, dif_neg hseen, h, ih]

/-- A walk from a cell that has not been seen is the search from it.  So cells that may stand in
either order are put in the one in which they came to use the same cell. -/
theorem visit_eq_search (links : Links) {root : String} {seen : Seen} (hroot : root ∉ seen)
    (order : List String) :
    links.visit root seen order = (links.search root root seen hroot order).map Found.result ∧
      ∀ other : Links, other.dependents = links.dependents →
        other.visit root seen order = links.visit root seen order := by
  constructor
  · rw [visit, (walk_push_eq links root).1 root seen hroot order []]
    cases links.search root root seen hroot order with
    | error circle => rfl
    | ok found =>
        change links.walk root [] found.seen found.order = .ok (found.seen, found.order)
        rw [walk]
  · intro other h
    rw [visit, visit, h]
    exact walk_congr h root _ _ order

/-- Two cells use `A`, and `D` uses both.  The circle of `D` and `E` does not go through the root,
and `X` is in the order already. -/
theorem visit_eq_search_diamond :
    let pairs := [("A", "B"), ("A", "C"), ("B", "D"), ("C", "D"), ("D", "E"), ("E", "D"),
      ("C", "X")]
    let links : Links := pairs.foldl (fun links (s, t) => links.link s t) ∅
    ∃ hroot : "A" ∉ (∅ : Seen).insert "X",
      (links.search "A" "A" _ hroot ["X"]).map (·.order) =
        .ok ["A", "C", "B", "D", "E", "X"] := by
  intro pairs links
  have hroot : "A" ∉ (∅ : Seen).insert "X" := by decide
  refine ⟨hroot, ?_⟩
  have hsearch := (visit_eq_search links hroot ["X"]).1
  have hvisit : (links.visit "A" ((∅ : Seen).insert "X") ["X"]).map Prod.snd =
      .ok ["A", "C", "B", "D", "E", "X"] := by decide +kernel
  rw [hsearch] at hvisit
  rw [← hvisit]
  cases links.search "A" "A" _ hroot ["X"] <;> rfl

end Worksheet.Links
