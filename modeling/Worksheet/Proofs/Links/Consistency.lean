import Mathlib.Data.Finset.Card
import Mathlib.Data.Finset.Dedup
import Worksheet.Links

/-!
# The two directions of the links agree

A graph keeps every link twice, among the dependents of one cell and among the
precedents of another, and it keeps the number of its links.  `Links.Consistent`
says that the three tell the same.  Under it each of `link`, `linkAt` and `unlink`
changes one list of each direction and nothing else, whether or not it finds the
link it is asked about: `dependents_link`, `precedents_link` and so on.

A consistent graph is known by its lists alone (`Links.Consistent.ext`), because no
empty list is kept and the size is the number of pairs.
-/

namespace Worksheet

/-! ## Lists of neighbours -/

namespace Neighbours

@[simp] theorem of_empty (cell : String) : of ∅ cell = [] := by simp [of]

theorem of_eq_getElem? (neighbours : Neighbours) (cell : String) :
    neighbours.of cell = neighbours[cell]?.getD [] :=
  Std.ExtTreeMap.getD_eq_getD_getElem?

theorem of_put (neighbours : Neighbours) (cell other : String) (list : List String) :
    (neighbours.put cell list).of other = if other = cell then list else neighbours.of other := by
  unfold put of
  by_cases hother : other = cell
  · subst hother
    cases list <;> simp
  · have hne : cell ≠ other := fun heq => hother heq.symm
    cases list <;> simp [hother, hne, Std.ExtTreeMap.getD_insert, Std.ExtTreeMap.getD_erase]

/-- No empty list is kept. -/
def Pruned (neighbours : Neighbours) : Prop := ∀ cell : String, neighbours[cell]? ≠ some []

theorem pruned_empty : Pruned ∅ := by simp [Pruned]

theorem Pruned.put {neighbours : Neighbours} (hpruned : neighbours.Pruned) (cell : String)
    (list : List String) : (neighbours.put cell list).Pruned := by
  intro other
  unfold Neighbours.put
  cases list with
  | nil =>
      by_cases hother : cell = other
      · simp [hother]
      · simpa [Std.ExtTreeMap.getElem?_erase, hother] using hpruned other
  | cons first rest =>
      by_cases hother : cell = other
      · simp [hother]
      · simpa [Std.ExtTreeMap.getElem?_insert, hother] using hpruned other

theorem Pruned.getElem?_eq {neighbours : Neighbours} (hpruned : neighbours.Pruned)
    (cell : String) :
    neighbours[cell]? = if neighbours.of cell = [] then none else some (neighbours.of cell) := by
  rw [of_eq_getElem?]
  cases hlist : neighbours[cell]? with
  | none => simp
  | some list =>
      have hne : list ≠ [] := fun heq => hpruned cell (heq ▸ hlist)
      simp [hne]

/-- Two maps without empty lists are the same if their lists are. -/
theorem Pruned.ext {first second : Neighbours} (hfirst : first.Pruned) (hsecond : second.Pruned)
    (hof : ∀ cell, first.of cell = second.of cell) : first = second := by
  apply Std.ExtTreeMap.ext_getElem?
  intro cell
  rw [hfirst.getElem?_eq, hsecond.getElem?_eq, hof]

theorem Pruned.mem_iff {neighbours : Neighbours} (hpruned : neighbours.Pruned) {cell : String} :
    cell ∈ neighbours ↔ neighbours.of cell ≠ [] := by
  rw [Std.ExtTreeMap.mem_iff_isSome_getElem?, hpruned.getElem?_eq]
  split <;> simp_all

end Neighbours

/-- To change a function at one place to the value that it has there changes nothing. -/
theorem eq_ite_apply {α β : Type} [DecidableEq α] (f : α → β) (a b : α) :
    f b = if b = a then f a else f b := by
  split
  · rename_i heq
    rw [heq]
  · rfl

/-! ## Lists without repetition -/

theorem mem_appendNew {list : List String} {name other : String} :
    other ∈ appendNew list name ↔ other ∈ list ∨ other = name := by
  unfold appendNew
  by_cases hname : name ∈ list
  · rw [if_pos (by simpa using hname)]
    exact ⟨Or.inl, fun hother => hother.elim id fun heq => heq ▸ hname⟩
  · rw [if_neg (by simpa using hname)]
    simp

theorem appendNew_of_mem {list : List String} {name : String} (hname : name ∈ list) :
    appendNew list name = list := by
  simp [appendNew, hname]

theorem appendNew_of_not_mem {list : List String} {name : String} (hname : name ∉ list) :
    appendNew list name = list ++ [name] := by
  simp [appendNew, hname]

theorem nodup_appendNew {list : List String} (hlist : list.Nodup) (name : String) :
    (appendNew list name).Nodup := by
  by_cases hname : name ∈ list
  · rwa [appendNew_of_mem hname]
  · rw [appendNew_of_not_mem hname]
    exact List.nodup_append.mpr ⟨hlist, List.nodup_singleton name,
      fun a ha b hb heq => hname (List.mem_singleton.mp hb ▸ heq ▸ ha)⟩

/-- The list with `name` at a place, or last if the list is shorter, unless it holds
the name already. -/
def insertNew (list : List String) (place : Nat) (name : String) : List String :=
  if name ∈ list then list else list.insertIdx (min place list.length) name

theorem insertNew_of_mem {list : List String} {name : String} (hname : name ∈ list)
    (place : Nat) : insertNew list place name = list := if_pos hname

theorem insertNew_length (list : List String) (name : String) :
    insertNew list list.length name = appendNew list name := by
  simp [insertNew, appendNew]

theorem mem_insertNew {list : List String} {place : Nat} {name other : String} :
    other ∈ insertNew list place name ↔ other ∈ list ∨ other = name := by
  unfold insertNew
  split
  · rename_i hname
    exact ⟨Or.inl, fun hother => hother.elim id fun heq => heq ▸ hname⟩
  · rw [List.mem_insertIdx (Nat.min_le_right place list.length)]
    exact or_comm

theorem nodup_insertNew {list : List String} (hlist : list.Nodup) (place : Nat)
    (name : String) : (insertNew list place name).Nodup := by
  unfold insertNew
  split
  · exact hlist
  · rename_i hname
    have hperm := List.perm_insertIdx name list (Nat.min_le_right place list.length)
    exact hperm.nodup_iff.mpr (List.nodup_cons.mpr ⟨hname, hlist⟩)

/-- To append names one by one is to keep the first of each. -/
theorem foldl_appendNew_eq_eraseDups (names : List String) :
    names.foldl appendNew [] = names.eraseDups := by
  induction names using List.reverseRecOn with
  | nil => rfl
  | append_singleton names name ih =>
      rw [List.foldl_append, ih, List.eraseDups_append]
      by_cases hname : name ∈ names
      · simp [appendNew, hname, List.mem_eraseDups, List.removeAll]
      · simp [appendNew, hname, List.mem_eraseDups, List.removeAll, List.eraseDups_cons]

theorem nodup_eraseDups (names : List String) : names.eraseDups.Nodup := by
  rw [← foldl_appendNew_eq_eraseDups]
  induction names using List.reverseRecOn with
  | nil => exact List.nodup_nil
  | append_singleton names name ih =>
      rw [List.foldl_append]
      exact nodup_appendNew ih name

theorem eraseDups_eq_self {names : List String} (hnames : names.Nodup) :
    names.eraseDups = names := by
  induction names using List.reverseRecOn with
  | nil => rfl
  | append_singleton names name ih =>
      obtain ⟨hrest, -, hdisjoint⟩ := List.nodup_append.mp hnames
      have hname : name ∉ names := fun hmem => hdisjoint name hmem name (by simp) rfl
      rw [← foldl_appendNew_eq_eraseDups, List.foldl_append, foldl_appendNew_eq_eraseDups,
        ih hrest]
      exact appendNew_of_not_mem hname

/-! ## Consistent graphs -/

namespace Links

/-- Whether a link leads from `s` to `t`, so that `t` uses `s`. -/
def Leads (links : Links) (s t : String) : Prop := t ∈ links.dependents s

/-- All links as pairs. -/
def pairs (links : Links) : Finset (String × String) :=
  (links.dependentsOf.toList.flatMap fun entry => entry.2.map fun t => (entry.1, t)).toFinset

theorem mem_pairs {links : Links} {s t : String} : (s, t) ∈ links.pairs ↔ links.Leads s t := by
  simp only [pairs, Leads, dependents, Neighbours.of_eq_getElem?, List.mem_toFinset,
    List.mem_flatMap, List.mem_map, Prod.mk.injEq, Prod.exists,
    Std.ExtTreeMap.mem_toList_iff_getElem?_eq_some]
  constructor
  · rintro ⟨cell, list, hlist, target, htarget, rfl, rfl⟩
    simpa [hlist] using htarget
  · intro ht
    cases hlist : links.dependentsOf[s]? with
    | none => simp [hlist] at ht
    | some list => exact ⟨s, list, hlist, t, by simpa [hlist] using ht, rfl, rfl⟩

/-- The two directions and the size of a graph tell the same links. -/
structure Consistent (links : Links) : Prop where
  mem_precedents_iff : ∀ s t, s ∈ links.precedents t ↔ t ∈ links.dependents s
  nodup_dependents : ∀ s, (links.dependents s).Nodup
  nodup_precedents : ∀ t, (links.precedents t).Nodup
  pruned_dependents : links.dependentsOf.Pruned
  pruned_precedents : links.precedentsOf.Pruned
  size_eq : links.size = links.pairs.card

variable {links : Links}

@[simp] theorem dependents_empty (s : String) : (∅ : Links).dependents s = [] :=
  Neighbours.of_empty s

@[simp] theorem precedents_empty (t : String) : (∅ : Links).precedents t = [] :=
  Neighbours.of_empty t

theorem consistent_empty : (∅ : Links).Consistent where
  mem_precedents_iff := by simp
  nodup_dependents := by simp
  nodup_precedents := by simp
  pruned_dependents := Neighbours.pruned_empty
  pruned_precedents := Neighbours.pruned_empty
  size_eq := by
    have hpairs : (∅ : Links).pairs = ∅ := by
      ext ⟨s, t⟩
      simp [mem_pairs, Leads]
    rw [hpairs]
    rfl

theorem contains_eq_true_iff {s t : String} :
    links.contains s t = true ↔ t ∈ links.dependents s := by
  simp [contains]

/-- A consistent graph is known by its lists. -/
theorem Consistent.ext {first second : Links} (hfirst : first.Consistent)
    (hsecond : second.Consistent)
    (hdependents : ∀ s, first.dependents s = second.dependents s)
    (hprecedents : ∀ t, first.precedents t = second.precedents t) : first = second := by
  have hpairs : first.pairs = second.pairs := by
    ext ⟨s, t⟩
    rw [mem_pairs, mem_pairs, Leads, Leads, hdependents]
  have hsize : first.size = second.size := by rw [hfirst.size_eq, hsecond.size_eq, hpairs]
  have hforward : first.dependentsOf = second.dependentsOf :=
    hfirst.pruned_dependents.ext hsecond.pruned_dependents hdependents
  have hbackward : first.precedentsOf = second.precedentsOf :=
    hfirst.pruned_precedents.ext hsecond.pruned_precedents hprecedents
  cases first
  cases second
  simp_all

/-! ## Single links -/

theorem link_eq_linkAt (s t : String) :
    links.link s t = links.linkAt s t (links.dependents s).length := by
  simp [link, linkAt]

theorem dependents_linkAt (s t r : String) (place : Nat) :
    (links.linkAt s t place).dependents r =
      if r = s then insertNew (links.dependents s) place t else links.dependents r := by
  unfold linkAt
  by_cases ht : t ∈ links.dependents s
  · rw [if_pos (contains_eq_true_iff.mpr ht), insertNew_of_mem ht]
    exact eq_ite_apply links.dependents s r
  · rw [if_neg (mt contains_eq_true_iff.mp ht)]
    simp only [dependents, Neighbours.of_put] at ht ⊢
    simp [insertNew, ht]

theorem Consistent.precedents_linkAt (hlinks : links.Consistent) (s t u : String) (place : Nat) :
    (links.linkAt s t place).precedents u =
      if u = t then appendNew (links.precedents t) s else links.precedents u := by
  unfold linkAt
  by_cases ht : t ∈ links.dependents s
  · rw [if_pos (contains_eq_true_iff.mpr ht),
      appendNew_of_mem ((hlinks.mem_precedents_iff s t).mpr ht)]
    exact eq_ite_apply links.precedents t u
  · rw [if_neg (mt contains_eq_true_iff.mp ht)]
    exact Neighbours.of_put _ _ _ _

theorem leads_linkAt {s t r u : String} {place : Nat} :
    (links.linkAt s t place).Leads r u ↔ links.Leads r u ∨ (r = s ∧ u = t) := by
  rw [Leads, Leads, dependents_linkAt]
  by_cases heq : r = s
  · subst heq
    simp [mem_insertNew]
  · simp [heq]

theorem Consistent.linkAt (hlinks : links.Consistent) (s t : String) (place : Nat) :
    (links.linkAt s t place).Consistent where
  mem_precedents_iff r u := by
    have hleads : u ∈ (links.linkAt s t place).dependents r ↔
        u ∈ links.dependents r ∨ (r = s ∧ u = t) := leads_linkAt
    rw [hleads, hlinks.precedents_linkAt, ← hlinks.mem_precedents_iff]
    by_cases heq : u = t
    · subst heq
      simp [mem_appendNew]
    · simp [heq]
  nodup_dependents r := by
    rw [dependents_linkAt]
    split
    · exact nodup_insertNew (hlinks.nodup_dependents s) place t
    · exact hlinks.nodup_dependents r
  nodup_precedents u := by
    rw [hlinks.precedents_linkAt]
    split
    · exact nodup_appendNew (hlinks.nodup_precedents t) s
    · exact hlinks.nodup_precedents u
  pruned_dependents := by
    unfold Links.linkAt
    split
    · exact hlinks.pruned_dependents
    · exact hlinks.pruned_dependents.put _ _
  pruned_precedents := by
    unfold Links.linkAt
    split
    · exact hlinks.pruned_precedents
    · exact hlinks.pruned_precedents.put _ _
  size_eq := by
    have hpairs : (links.linkAt s t place).pairs = insert (s, t) links.pairs := by
      ext ⟨r, u⟩
      rw [Finset.mem_insert, mem_pairs, mem_pairs, leads_linkAt, Prod.mk.injEq]
      exact or_comm
    rw [hpairs]
    unfold Links.linkAt
    -- A link is counted if and only if its pair is new.
    by_cases ht : t ∈ links.dependents s
    · rw [if_pos (contains_eq_true_iff.mpr ht), Finset.insert_eq_of_mem (mem_pairs.mpr ht)]
      exact hlinks.size_eq
    · rw [if_neg (mt contains_eq_true_iff.mp ht),
        Finset.card_insert_of_notMem (mt mem_pairs.mp ht), hlinks.size_eq]

theorem Consistent.link (hlinks : links.Consistent) (s t : String) :
    (links.link s t).Consistent := by
  rw [link_eq_linkAt]
  exact hlinks.linkAt s t _

theorem dependents_link (s t r : String) :
    (links.link s t).dependents r =
      if r = s then appendNew (links.dependents s) t else links.dependents r := by
  rw [link_eq_linkAt, dependents_linkAt, insertNew_length]

theorem Consistent.precedents_link (hlinks : links.Consistent) (s t u : String) :
    (links.link s t).precedents u =
      if u = t then appendNew (links.precedents t) s else links.precedents u := by
  rw [link_eq_linkAt, hlinks.precedents_linkAt]

theorem dependents_unlink (s t r : String) :
    (links.unlink s t).dependents r =
      if r = s then (links.dependents s).erase t else links.dependents r := by
  unfold unlink
  by_cases ht : t ∈ links.dependents s
  · rw [if_pos (contains_eq_true_iff.mpr ht)]
    exact Neighbours.of_put _ _ _ _
  · rw [if_neg (mt contains_eq_true_iff.mp ht), List.erase_of_not_mem ht]
    exact eq_ite_apply links.dependents s r

theorem Consistent.precedents_unlink (hlinks : links.Consistent) (s t u : String) :
    (links.unlink s t).precedents u =
      if u = t then (links.precedents t).erase s else links.precedents u := by
  unfold unlink
  by_cases ht : t ∈ links.dependents s
  · rw [if_pos (contains_eq_true_iff.mpr ht)]
    exact Neighbours.of_put _ _ _ _
  · rw [if_neg (mt contains_eq_true_iff.mp ht),
      List.erase_of_not_mem (mt (hlinks.mem_precedents_iff s t).mp ht)]
    exact eq_ite_apply links.precedents t u

theorem Consistent.leads_unlink (hlinks : links.Consistent) {s t r u : String} :
    (links.unlink s t).Leads r u ↔ links.Leads r u ∧ ¬ (r = s ∧ u = t) := by
  rw [Leads, Leads, dependents_unlink]
  by_cases heq : r = s
  · subst heq
    simp [(hlinks.nodup_dependents r).mem_erase_iff, and_comm]
  · simp [heq]

theorem Consistent.unlink (hlinks : links.Consistent) (s t : String) :
    (links.unlink s t).Consistent where
  mem_precedents_iff r u := by
    have hleads : u ∈ (links.unlink s t).dependents r ↔
        u ∈ links.dependents r ∧ ¬ (r = s ∧ u = t) := hlinks.leads_unlink
    rw [hleads, hlinks.precedents_unlink, ← hlinks.mem_precedents_iff]
    by_cases heq : u = t
    · subst heq
      simp [(hlinks.nodup_precedents u).mem_erase_iff, and_comm]
    · simp [heq]
  nodup_dependents r := by
    rw [dependents_unlink]
    split
    · exact (hlinks.nodup_dependents s).erase t
    · exact hlinks.nodup_dependents r
  nodup_precedents u := by
    rw [hlinks.precedents_unlink]
    split
    · exact (hlinks.nodup_precedents t).erase s
    · exact hlinks.nodup_precedents u
  pruned_dependents := by
    unfold Links.unlink
    split
    · exact hlinks.pruned_dependents.put _ _
    · exact hlinks.pruned_dependents
  pruned_precedents := by
    unfold Links.unlink
    split
    · exact hlinks.pruned_precedents.put _ _
    · exact hlinks.pruned_precedents
  size_eq := by
    have hpairs : (links.unlink s t).pairs = links.pairs.erase (s, t) := by
      ext ⟨r, u⟩
      rw [Finset.mem_erase, mem_pairs, mem_pairs, hlinks.leads_unlink, ne_eq, Prod.mk.injEq]
      exact and_comm
    rw [hpairs]
    unfold Links.unlink
    by_cases ht : t ∈ links.dependents s
    · rw [if_pos (contains_eq_true_iff.mpr ht), Finset.card_erase_of_mem (mem_pairs.mpr ht),
        hlinks.size_eq]
    · rw [if_neg (mt contains_eq_true_iff.mp ht), Finset.erase_eq_of_notMem (mt mem_pairs.mp ht),
        hlinks.size_eq]

end Links

end Worksheet
