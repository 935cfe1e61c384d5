import Std.Data.ExtTreeMap

/-!
# Links between cells

A link `(s, t)` says that cell `t` uses cell `s`.  The dependents of `s` are the
cells that use it, and the precedents of `t` are the cells that it uses.  Both
lists are kept for every cell, in the order in which the links were made, and a
cell need not exist to have links.

The two directions change together.  `link`, `linkAt` and `unlink` are the only
operations that touch the maps; everything else is a sequence of these three.  A
list that becomes empty is dropped from its map, so two graphs with the same
lists are the same graph.

The links to one cell can be saved and put back.  A saved link remembers its place
among the dependents of its precedent, because it is that order in which cells are
later recomputed.
-/

namespace Worksheet

/-! ## Lists of neighbours -/

/-- A list of neighbours for every cell that has any. -/
abbrev Neighbours := Std.ExtTreeMap String (List String)

namespace Neighbours

/-- The neighbours of a cell. -/
def of (neighbours : Neighbours) (cell : String) : List String := neighbours.getD cell []

/-- Gives a cell a new list of neighbours. -/
def put (neighbours : Neighbours) (cell : String) (list : List String) : Neighbours :=
  if list.isEmpty then neighbours.erase cell else neighbours.insert cell list

end Neighbours

/-- The list with `name` at its end, unless it holds the name already. -/
def appendNew (list : List String) (name : String) : List String :=
  if list.contains name then list else list ++ [name]

/-! ## The graph -/

/-- The links between the cells of a sheet, in both directions, with their number. -/
structure Links where
  dependentsOf : Neighbours
  precedentsOf : Neighbours
  size : Nat

/-- The precedents of a cell, each with the place of the cell among the dependents
of that precedent. -/
structure PrecedentPlaces where
  cell : String
  places : List (String × Nat)
  deriving Repr, DecidableEq, Inhabited

namespace Links

/-- The graph without links. -/
def empty : Links := ⟨∅, ∅, 0⟩

instance : EmptyCollection Links := ⟨empty⟩

instance : Inhabited Links := ⟨empty⟩

variable (links : Links)

/-! ## Queries -/

/-- The cells that use a cell, in the order of their links. -/
def dependents (s : String) : List String := links.dependentsOf.of s

/-- The cells that a cell uses, in the order of their links. -/
def precedents (t : String) : List String := links.precedentsOf.of t

/-- Whether `t` uses `s`. -/
def contains (s t : String) : Bool := (links.dependents s).contains t

/-- The number of cells that a cell uses. -/
def precedentCount (t : String) : Nat := (links.precedents t).length

/-- Whether any cell uses a cell. -/
def hasDependents (s : String) : Bool := !(links.dependents s).isEmpty

/-- Whether a cell uses any cell. -/
def hasPrecedents (t : String) : Bool := !(links.precedents t).isEmpty

/-- Whether there is no link. -/
def isEmpty : Bool := links.size == 0

/-! ## Single links -/

/-- Makes `t` use `s`, as the last of its dependents, unless it does already. -/
def link (s t : String) : Links :=
  if links.contains s t then links
  else
    { dependentsOf := links.dependentsOf.put s (links.dependents s ++ [t])
      precedentsOf := links.precedentsOf.put t (appendNew (links.precedents t) s)
      size := links.size + 1 }

/-- Makes `t` use `s` unless it does already, with `t` at a given place among the
dependents of `s`, or last if there are fewer. -/
def linkAt (s t : String) (place : Nat) : Links :=
  if links.contains s t then links
  else
    let others := links.dependents s
    { dependentsOf := links.dependentsOf.put s (others.insertIdx (min place others.length) t)
      precedentsOf := links.precedentsOf.put t (appendNew (links.precedents t) s)
      size := links.size + 1 }

/-- Makes `t` no longer use `s`. -/
def unlink (s t : String) : Links :=
  if links.contains s t then
    { dependentsOf := links.dependentsOf.put s ((links.dependents s).erase t)
      precedentsOf := links.precedentsOf.put t ((links.precedents t).erase s)
      size := links.size - 1 }
  else links

/-! ## All links of a cell -/

/-- Makes `targets` the dependents of `s` in place of those it has. -/
def replaceDependents (s : String) (targets : List String) : Links :=
  let cleared := (links.dependents s).foldl (fun links t => links.unlink s t) links
  targets.foldl (fun links t => links.link s t) cleared

/-- Makes `sources` the precedents of `t` in place of those it has. -/
def replacePrecedents (t : String) (sources : List String) : Links :=
  let cleared := (links.precedents t).foldl (fun links s => links.unlink s t) links
  sources.foldl (fun links s => links.link s t) cleared

/-- The precedents of a cell with its places among their dependents. -/
def savePrecedents (t : String) : PrecedentPlaces where
  cell := t
  places := (links.precedents t).map fun s => (s, ((links.dependents s).idxOf? t).getD 0)

/-- Gives a cell back the precedents that were saved, each link at its place. -/
def restorePrecedents (saved : PrecedentPlaces) : Links :=
  saved.places.foldl (fun links place => links.linkAt place.1 saved.cell place.2)
    (links.replacePrecedents saved.cell [])

end Links

end Worksheet
