import Mathlib.Data.List.Pairwise
import Mathlib.Data.List.Nodup
import Mathlib.Logic.Relation
import Worksheet.Links.Order
import Worksheet.Proofs.Except
import Worksheet.Proofs.Links.Consistency

/-!
# What a walk finds

A walk from a root comes back to the root if and only if links run in a circle
through it.  If it does not, the order it gives starts with the root, holds what can
be reached from it and nothing else, and puts a cell behind every cell that leads to
it, unless the two lie on a circle elsewhere.

## Strategy

`UnderWay` is what holds while a walk is going on.  The cells on the stack are a path
from the root, so that each is reached from those below it.  The cells in the order
are finished: what they lead to is in the order as well, or is still on the stack, and
then the link closes a circle.  The links that a cell on the stack has already
followed lead to seen cells, and never to the root.

Each step of the walk keeps this (`UnderWay.finish`, `UnderWay.skip`,
`UnderWay.push`).  With an empty stack it becomes `Settled`, from which the next walk
can start.
-/

namespace Worksheet.Links

open Relation

variable {links : Links} {root : String}

/-! ## Following links -/

/-- Whether links can be followed from `s` to `t`, in any number of steps. -/
def Reaches (links : Links) : String → String → Prop := ReflTransGen links.Leads

/-- Whether `t` uses `s`, directly or through others. -/
def Feeds (links : Links) : String → String → Prop := TransGen links.Leads

/-- Whether no cell uses itself, directly or through others. -/
def Acyclic (links : Links) : Prop := ∀ cell, ¬ links.Feeds cell cell

theorem reaches_of_closed {cells : List String}
    (hclosed : ∀ s ∈ cells, ∀ t, links.Leads s t → t ∈ cells) {s t : String} (hs : s ∈ cells)
    (hreach : links.Reaches s t) : t ∈ cells := by
  induction hreach with
  | refl => exact hs
  | tail _ hstep ih => exact hclosed _ ih _ hstep

/-! ## Invariants -/

/-- Two cells of an order where the later does not lead to the earlier, unless they
lie on a circle. -/
def InOrder (links : Links) (earlier later : String) : Prop :=
  links.Leads later earlier → links.Reaches earlier later

/-- What holds between two walks: the order holds the cells seen, each once and with
all that they lead to. -/
structure Settled (links : Links) (seen : Seen) (order : List String) : Prop where
  mem_seen_iff : ∀ cell, cell ∈ seen ↔ cell ∈ order
  nodup : order.Nodup
  closed : ∀ cell ∈ order, ∀ next, links.Leads cell next → next ∈ order
  ordered : order.Pairwise links.InOrder

/-- What holds during a walk from `root`. -/
structure UnderWay (links : Links) (root : String) (stack : List Frame) (seen : Seen)
    (order : List String) : Prop where
  mem_seen_iff : ∀ cell, cell ∈ seen ↔ cell ∈ order ∨ cell ∈ stack.map Frame.cell
  nodup : (stack.map Frame.cell ++ order).Nodup
  reached : ∀ frame ∈ stack, links.Reaches root frame.cell
  nested : (stack.map Frame.cell).Pairwise fun above below => links.Reaches below above
  pending : ∀ frame ∈ stack, ∀ next ∈ frame.pending, links.Leads frame.cell next
  followed : ∀ frame ∈ stack, ∀ next, links.Leads frame.cell next →
    next ∈ frame.pending ∨ (next ∈ seen ∧ next ≠ root)
  closed : ∀ cell ∈ order, ∀ next, links.Leads cell next →
    next ≠ root ∧ (next ∈ order ∨ (next ∈ stack.map Frame.cell ∧ links.Reaches next cell))
  ordered : order.Pairwise links.InOrder

theorem mem_insert_iff {seen : Seen} {cell other : String} :
    other ∈ seen.insert cell ↔ other = cell ∨ other ∈ seen := by
  rw [Std.ExtTreeSet.mem_insert, Std.compare_eq_iff_eq, eq_comm]

theorem settled_empty (links : Links) : links.Settled ∅ [] where
  mem_seen_iff := by simp
  nodup := List.nodup_nil
  closed := by simp
  ordered := List.Pairwise.nil

/-- A walk begins with the root alone on the stack. -/
theorem Settled.start {seen : Seen} {order : List String} (hsettled : links.Settled seen order)
    (hroot : root ∉ seen) :
    links.UnderWay root [⟨root, links.dependents root⟩] (seen.insert root) order := by
  have hnot : root ∉ order := mt (hsettled.mem_seen_iff root).mpr hroot
  constructor
  · intro cell
    rw [mem_insert_iff, hsettled.mem_seen_iff, or_comm]
    simp
  · simpa using ⟨hnot, hsettled.nodup⟩
  · intro frame hframe
    rw [List.mem_singleton.mp hframe]
    exact ReflTransGen.refl
  · simp
  · intro frame hframe
    rw [List.mem_singleton.mp hframe]
    exact fun next hnext => hnext
  · intro frame hframe
    rw [List.mem_singleton.mp hframe]
    exact fun next hnext => Or.inl hnext
  · intro cell hcell next hnext
    have hmem := hsettled.closed cell hcell next hnext
    exact ⟨fun heq => hnot (heq ▸ hmem), Or.inl hmem⟩
  · exact hsettled.ordered

/-- A walk ends with an empty stack. -/
theorem UnderWay.settled {seen : Seen} {order : List String}
    (hwalk : links.UnderWay root [] seen order) : links.Settled seen order where
  mem_seen_iff cell := by simpa using hwalk.mem_seen_iff cell
  nodup := by simpa using hwalk.nodup
  closed cell hcell next hnext := by simpa using (hwalk.closed cell hcell next hnext).2
  ordered := hwalk.ordered

/-! ## The steps of a walk -/

theorem UnderWay.finish {cell : String} {stack : List Frame} {seen : Seen} {order : List String}
    (hwalk : links.UnderWay root (⟨cell, []⟩ :: stack) seen order) :
    links.UnderWay root stack seen (cell :: order) := by
  have hnodup : (cell :: (stack.map Frame.cell ++ order)).Nodup := hwalk.nodup
  have hnested := List.pairwise_cons.mp hwalk.nested
  constructor
  · intro other
    rw [hwalk.mem_seen_iff]
    simp only [List.map_cons, List.mem_cons]
    tauto
  · exact List.perm_middle.nodup_iff.mpr hnodup
  · exact fun frame hframe => hwalk.reached frame (List.mem_cons_of_mem _ hframe)
  · exact hnested.2
  · exact fun frame hframe => hwalk.pending frame (List.mem_cons_of_mem _ hframe)
  · exact fun frame hframe => hwalk.followed frame (List.mem_cons_of_mem _ hframe)
  · intro other hother next hnext
    rcases List.mem_cons.mp hother with rfl | hother
    · -- The finished cell has followed all its links, so they lead to seen cells.
      have hfollowed := hwalk.followed _ (List.mem_cons_self ..) next hnext
      obtain ⟨hseen, hne⟩ := hfollowed.resolve_left List.not_mem_nil
      refine ⟨hne, ?_⟩
      rcases (hwalk.mem_seen_iff next).mp hseen with horder | hstack
      · exact Or.inl (List.mem_cons_of_mem _ horder)
      · rcases List.mem_cons.mp hstack with heq | hbelow
        · exact Or.inl (List.mem_cons.mpr (Or.inl heq))
        · exact Or.inr ⟨hbelow, hnested.1 next hbelow⟩
    · obtain ⟨hne, horder | ⟨hstack, hreach⟩⟩ := hwalk.closed other hother next hnext
      · exact ⟨hne, Or.inl (List.mem_cons_of_mem _ horder)⟩
      · rcases List.mem_cons.mp hstack with heq | hbelow
        · exact ⟨hne, Or.inl (List.mem_cons.mpr (Or.inl heq))⟩
        · exact ⟨hne, Or.inr ⟨hbelow, hreach⟩⟩
  · refine List.pairwise_cons.mpr ⟨fun later hlater hleads => ?_, hwalk.ordered⟩
    -- A finished cell that leads to this one did so while this one was on the stack.
    obtain ⟨-, horder | ⟨-, hreach⟩⟩ := hwalk.closed later hlater cell hleads
    · exact absurd (List.mem_append.mpr (Or.inr horder)) (List.nodup_cons.mp hnodup).1
    · exact hreach

theorem UnderWay.skip {cell next : String} {pending : List String} {stack : List Frame}
    {seen : Seen} {order : List String}
    (hwalk : links.UnderWay root (⟨cell, next :: pending⟩ :: stack) seen order)
    (hne : next ≠ root) (hseen : next ∈ seen) :
    links.UnderWay root (⟨cell, pending⟩ :: stack) seen order where
  mem_seen_iff := hwalk.mem_seen_iff
  nodup := hwalk.nodup
  reached := by
    have hreached := List.forall_mem_cons.mp hwalk.reached
    exact List.forall_mem_cons.mpr hreached
  nested := hwalk.nested
  pending := by
    have hpending := List.forall_mem_cons.mp hwalk.pending
    exact List.forall_mem_cons.mpr
      ⟨fun other hother => hpending.1 other (List.mem_cons_of_mem _ hother), hpending.2⟩
  followed := by
    have hfollowed := List.forall_mem_cons.mp hwalk.followed
    refine List.forall_mem_cons.mpr ⟨fun other hother => ?_, hfollowed.2⟩
    rcases hfollowed.1 other hother with hmem | hdone
    · rcases List.mem_cons.mp hmem with rfl | hmem
      · exact Or.inr ⟨hseen, hne⟩
      · exact Or.inl hmem
    · exact Or.inr hdone
  closed := hwalk.closed
  ordered := hwalk.ordered

theorem UnderWay.push {cell next : String} {pending : List String} {stack : List Frame}
    {seen : Seen} {order : List String}
    (hwalk : links.UnderWay root (⟨cell, next :: pending⟩ :: stack) seen order)
    (hne : next ≠ root) (hunseen : next ∉ seen) :
    links.UnderWay root (⟨next, links.dependents next⟩ :: ⟨cell, pending⟩ :: stack)
      (seen.insert next) order := by
  have hleads : links.Leads cell next :=
    hwalk.pending _ (List.mem_cons_self ..) next (List.mem_cons_self ..)
  have hreached := List.forall_mem_cons.mp hwalk.reached
  have hpending := List.forall_mem_cons.mp hwalk.pending
  have hfollowed := List.forall_mem_cons.mp hwalk.followed
  have hunseen' := mt (hwalk.mem_seen_iff next).mpr hunseen
  constructor
  · intro other
    rw [mem_insert_iff, hwalk.mem_seen_iff]
    simp only [List.map_cons, List.mem_cons]
    tauto
  · refine List.nodup_cons.mpr ⟨fun hmem => hunseen' ?_, hwalk.nodup⟩
    exact (List.mem_append.mp hmem).symm
  · exact List.forall_mem_cons.mpr
      ⟨hreached.1.tail hleads, List.forall_mem_cons.mpr hreached⟩
  · refine List.pairwise_cons.mpr ⟨fun below hbelow => ?_, hwalk.nested⟩
    rcases List.mem_cons.mp hbelow with rfl | hbelow
    · exact ReflTransGen.single hleads
    · exact ((List.pairwise_cons.mp hwalk.nested).1 below hbelow).tail hleads
  · refine List.forall_mem_cons.mpr ⟨fun other hother => hother, ?_⟩
    exact List.forall_mem_cons.mpr
      ⟨fun other hother => hpending.1 other (List.mem_cons_of_mem _ hother), hpending.2⟩
  · have hmono : ∀ other, other ∈ seen → other ∈ seen.insert next := fun other hother =>
      mem_insert_iff.mpr (Or.inr hother)
    refine List.forall_mem_cons.mpr ⟨fun other hother => Or.inl hother,
      List.forall_mem_cons.mpr ⟨fun other hother => ?_, fun frame hframe other hother => ?_⟩⟩
    · rcases hfollowed.1 other hother with hmem | ⟨hdone, hother⟩
      · rcases List.mem_cons.mp hmem with rfl | hmem
        · exact Or.inr ⟨Std.ExtTreeSet.mem_insert_self, hne⟩
        · exact Or.inl hmem
      · exact Or.inr ⟨hmono other hdone, hother⟩
    · exact (hfollowed.2 frame hframe other hother).imp_right
        fun hdone => ⟨hmono other hdone.1, hdone.2⟩
  · intro other hother after hafter
    obtain ⟨hafterne, hplace⟩ := hwalk.closed other hother after hafter
    exact ⟨hafterne, hplace.imp_right fun hstack => ⟨List.mem_cons_of_mem _ hstack.1, hstack.2⟩⟩
  · exact hwalk.ordered

/-! ## Whole walks -/

/-- A walk that fails has found a circle through its root. -/
theorem UnderWay.feeds_of_walk_error {stack : List Frame} {seen : Seen} {order : List String}
    {circle : CircularReference} (hwalk : links.UnderWay root stack seen order)
    (herror : links.walk root stack seen order = .error circle) :
    circle = ⟨root⟩ ∧ links.Feeds root root := by
  fun_induction walk links root stack seen order with
  | case1 => cases herror
  | case2 seen order cell stack ih => exact ih hwalk.finish herror
  | case3 seen order cell pending stack =>
      have hreached := hwalk.reached _ (List.mem_cons_self ..)
      have hleads := hwalk.pending _ (List.mem_cons_self ..) root (List.mem_cons_self ..)
      cases herror
      exact ⟨rfl, TransGen.tail' hreached hleads⟩
  | case4 seen order cell next pending stack hne hseen ih => exact ih (hwalk.skip hne hseen) herror
  | case5 seen order cell next pending stack hne hunseen ih =>
      exact ih (hwalk.push hne hunseen) herror

/-- A walk that succeeds puts cells that it has reached in front of the order, the
cell at the bottom of its stack first. -/
theorem UnderWay.walk_ok {stack : List Frame} {seen seen' : Seen} {order order' : List String}
    (hwalk : links.UnderWay root stack seen order)
    (hok : links.walk root stack seen order = .ok (seen', order')) :
    links.UnderWay root [] seen' order' ∧
      ∃ found, order' = found ++ order ∧ (∀ cell ∈ found, links.Reaches root cell) ∧
        found.head? = (stack.map Frame.cell).getLast? := by
  fun_induction walk links root stack seen order with
  | case1 =>
      cases hok
      exact ⟨hwalk, [], rfl, by simp, rfl⟩
  | case2 seen order cell stack ih =>
      obtain ⟨hend, found, rfl, hfound, hhead⟩ := ih hwalk.finish hok
      refine ⟨hend, found ++ [cell], by simp, ?_, ?_⟩
      · have hcell := hwalk.reached _ (List.mem_cons_self ..)
        exact List.forall_mem_append.mpr ⟨hfound, List.forall_mem_singleton.mpr hcell⟩
      · -- The cell at the bottom is finished last, so nothing gets in front of it.
        cases stack with
        | nil =>
            have hnil : found = [] := by simpa using hhead
            simp [hnil]
        | cons below stack =>
            rw [List.head?_append, hhead]
            simp [List.getLast?_cons]
  | case3 => cases hok
  | case4 seen order cell next pending stack hne hseen ih => exact ih (hwalk.skip hne hseen) hok
  | case5 seen order cell next pending stack hne hunseen ih =>
      obtain ⟨hend, found, horder, hfound, hhead⟩ := ih (hwalk.push hne hunseen) hok
      refine ⟨hend, found, horder, hfound, hhead.trans ?_⟩
      simp [List.getLast?_cons]

theorem Settled.feeds_of_visit_error {seen : Seen} {order : List String}
    {circle : CircularReference} (hsettled : links.Settled seen order) (hroot : root ∉ seen)
    (herror : links.visit root seen order = .error circle) :
    circle = ⟨root⟩ ∧ links.Feeds root root :=
  (hsettled.start hroot).feeds_of_walk_error herror

theorem Settled.visit_ok {seen seen' : Seen} {order order' : List String}
    (hsettled : links.Settled seen order) (hroot : root ∉ seen)
    (hok : links.visit root seen order = .ok (seen', order')) :
    links.Settled seen' order' ∧ ¬ links.Feeds root root ∧
      ∃ found, order' = found ++ order ∧ (∀ cell ∈ found, links.Reaches root cell) ∧
        found.head? = some root := by
  obtain ⟨hend, found, horder, hfound, hhead⟩ := (hsettled.start hroot).walk_ok hok
  have hmem : root ∈ order' := by
    rw [horder]
    exact List.mem_append_left _ (List.mem_of_head? hhead)
  refine ⟨hend.settled, fun hcircle => ?_, found, horder, hfound, hhead⟩
  -- The last link of a circle leads from a cell of the order to the root.
  obtain ⟨last, hreach, hleads⟩ := TransGen.tail'_iff.mp hcircle
  have hlast := reaches_of_closed hend.settled.closed hmem hreach
  exact (hend.closed last hlast root hleads).1 rfl

/-! ## The order of recomputation -/

/-- What a walk from a single root gives. -/
structure OrderFrom (links : Links) (root : String) (order : List String) : Prop where
  not_feeds : ¬ links.Feeds root root
  head : order.head? = some root
  nodup : order.Nodup
  mem_iff : ∀ cell, cell ∈ order ↔ links.Reaches root cell
  ordered : order.Pairwise links.InOrder

theorem recomputeOrder_singleton (links : Links) (root : String) :
    links.recomputeOrder [root] = (links.visit root ∅ []).map Prod.snd := by
  simp [recomputeOrder, visitAll]

theorem feeds_of_recomputeOrder_error {circle : CircularReference}
    (herror : links.recomputeOrder [root] = .error circle) :
    circle = ⟨root⟩ ∧ links.Feeds root root := by
  rw [recomputeOrder_singleton] at herror
  exact (settled_empty links).feeds_of_visit_error (by simp) (map_eq_error_iff.mp herror)

theorem orderFrom_of_recomputeOrder_ok {order : List String}
    (hok : links.recomputeOrder [root] = .ok order) : links.OrderFrom root order := by
  rw [recomputeOrder_singleton] at hok
  obtain ⟨⟨seen', order'⟩, hvisit, rfl⟩ := map_eq_ok_iff.mp hok
  obtain ⟨hend, hcircle, found, horder, hfound, hhead⟩ :=
    (settled_empty links).visit_ok (by simp) hvisit
  rw [List.append_nil] at horder
  subst horder
  refine ⟨hcircle, hhead, hend.nodup, fun cell => ⟨hfound cell, fun hreach => ?_⟩, hend.ordered⟩
  exact reaches_of_closed hend.closed (List.mem_of_head? hhead) hreach

end Worksheet.Links
