import Mathlib.Data.List.InsertIdx
import Worksheet.Proofs.Links.Consistency

/-!
# Replacing and restoring the precedents of a cell

`Links.replacePrecedents` first clears the links to a cell and then makes new ones.
Clearing takes the cell out of every list of dependents (`dependents_clear`), and
linking puts it back at the end of some (`dependents_replacePrecedents`).  The other
cells keep their places throughout.

`Links.restorePrecedents` clears as well and then puts the cell back at places of its
own (`dependents_restorePrecedents`).  When the places are the ones that were saved
and only links to the cell have changed since, this is the graph of the save
(`AgreeApart.restorePrecedents_savePrecedents`): a list without a cell, with the cell
inserted where it was, is the list.
-/

namespace Worksheet

theorem erase_insertIdx {list : List String} {name : String} (hname : name ∉ list) (place : Nat) :
    (list.insertIdx place name).erase name = list := by
  induction list generalizing place with
  | nil => cases place <;> simp
  | cons first rest ih =>
      cases place with
      | zero => rw [List.insertIdx_zero, List.erase_cons_head]
      | succ place =>
          have hne : name ≠ first := List.ne_of_not_mem_cons hname
          rw [List.insertIdx_succ_cons, List.erase_cons_tail (by simpa using hne.symm),
            ih (List.not_mem_of_not_mem_cons hname)]

/-- To put a name into a list makes no difference to the others. -/
theorem erase_insertNew (list : List String) (place : Nat) (name : String) :
    (insertNew list place name).erase name = list.erase name := by
  unfold insertNew
  split
  · rfl
  · rename_i hname
    rw [erase_insertIdx hname, List.erase_of_not_mem hname]

/-- A list without a name, with the name put back where it was. -/
theorem insertNew_idxOf_erase {list : List String} (hlist : list.Nodup) {name : String}
    (hname : name ∈ list) : insertNew (list.erase name) (list.idxOf name) name = list := by
  have hnot : name ∉ list.erase name := hlist.not_mem_erase
  have hlt : list.idxOf name < list.length := List.idxOf_lt_length_of_mem hname
  have hget : list[list.idxOf name] = name := List.getElem_idxOf hlt
  have hle : list.idxOf name ≤ (list.erase name).length := by
    rw [List.length_erase_of_mem hname]
    omega
  calc insertNew (list.erase name) (list.idxOf name) name
      = (list.erase name).insertIdx (list.idxOf name) name := by
        rw [insertNew, if_neg hnot, Nat.min_eq_left hle]
    _ = (list.eraseIdx (list.idxOf name)).insertIdx (list.idxOf name) list[list.idxOf name] := by
        rw [List.erase_eq_eraseIdx_of_idxOf rfl, hget]
    _ = list := List.insertIdx_eraseIdx_getElem hlt

namespace Links

variable {links : Links}

/-! ## Clearing -/

theorem Consistent.foldl_unlink (hlinks : links.Consistent) (names : List String) (t : String) :
    (names.foldl (fun links s => links.unlink s t) links).Consistent :=
  List.foldlRecOn names _ hlinks fun _ hnow s _ => hnow.unlink s t

theorem Consistent.dependents_foldl_unlink (hlinks : links.Consistent) (names : List String)
    (t r : String) :
    (names.foldl (fun links s => links.unlink s t) links).dependents r =
      if r ∈ names then (links.dependents r).erase t else links.dependents r := by
  induction names generalizing links with
  | nil => simp
  | cons s names ih =>
      rw [List.foldl_cons, ih (hlinks.unlink s t), dependents_unlink]
      by_cases hr : r = s
      · -- The list holds the cell once, so a second time there is nothing to take out.
        subst hr
        have htwice : ((links.dependents r).erase t).erase t = (links.dependents r).erase t :=
          List.erase_of_not_mem (hlinks.nodup_dependents r).not_mem_erase
        simp [htwice]
      · simp [hr]

theorem Consistent.precedents_foldl_unlink_of_ne (hlinks : links.Consistent)
    (names : List String) {t u : String} (hu : u ≠ t) :
    (names.foldl (fun links s => links.unlink s t) links).precedents u = links.precedents u := by
  induction names generalizing links with
  | nil => rfl
  | cons s names ih =>
      rw [List.foldl_cons, ih (hlinks.unlink s t), hlinks.precedents_unlink, if_neg hu]

theorem Consistent.clear (hlinks : links.Consistent) (t : String) :
    (links.replacePrecedents t []).Consistent :=
  hlinks.foldl_unlink (links.precedents t) t

theorem Consistent.dependents_clear (hlinks : links.Consistent) (t r : String) :
    (links.replacePrecedents t []).dependents r = (links.dependents r).erase t := by
  refine (hlinks.dependents_foldl_unlink (links.precedents t) t r).trans ?_
  by_cases hr : r ∈ links.precedents t
  · rw [if_pos hr]
  · rw [if_neg hr, List.erase_of_not_mem (mt (hlinks.mem_precedents_iff r t).mpr hr)]

theorem Consistent.precedents_clear (hlinks : links.Consistent) (t u : String) :
    (links.replacePrecedents t []).precedents u =
      if u = t then [] else links.precedents u := by
  by_cases hu : u = t
  · subst hu
    rw [if_pos rfl, List.eq_nil_iff_forall_not_mem]
    intro s hs
    have hmem := ((hlinks.clear u).mem_precedents_iff s u).mp hs
    rw [hlinks.dependents_clear] at hmem
    exact (hlinks.nodup_dependents s).not_mem_erase hmem
  · rw [if_neg hu]
    exact hlinks.precedents_foldl_unlink_of_ne (links.precedents t) hu

/-- The precedents that a cell has when it is linked anew after it has been cleared. -/
theorem Consistent.precedents_clear_appendNew (hlinks : links.Consistent) (t u : String)
    (names : List String) :
    (if u = t then names.foldl appendNew ((links.replacePrecedents t []).precedents t)
      else (links.replacePrecedents t []).precedents u) =
      if u = t then names.eraseDups else links.precedents u := by
  by_cases hu : u = t
  · rw [if_pos hu, if_pos hu, hlinks.precedents_clear, if_pos rfl, foldl_appendNew_eq_eraseDups]
  · rw [if_neg hu, if_neg hu, hlinks.precedents_clear, if_neg hu]

/-! ## Linking anew -/

theorem Consistent.foldl_link (hlinks : links.Consistent) (names : List String) (t : String) :
    (names.foldl (fun links s => links.link s t) links).Consistent :=
  List.foldlRecOn names _ hlinks fun _ hnow s _ => hnow.link s t

theorem dependents_foldl_link (names : List String) (t r : String) :
    (names.foldl (fun links s => links.link s t) links).dependents r =
      if r ∈ names then appendNew (links.dependents r) t else links.dependents r := by
  induction names generalizing links with
  | nil => simp
  | cons s names ih =>
      rw [List.foldl_cons, ih, dependents_link]
      by_cases hr : r = s
      · subst hr
        have htwice : appendNew (appendNew (links.dependents r) t) t =
            appendNew (links.dependents r) t :=
          appendNew_of_mem (mem_appendNew.mpr (Or.inr rfl))
        simp [htwice]
      · simp [hr]

theorem Consistent.precedents_foldl_link (hlinks : links.Consistent) (names : List String)
    (t u : String) :
    (names.foldl (fun links s => links.link s t) links).precedents u =
      if u = t then names.foldl appendNew (links.precedents t) else links.precedents u := by
  induction names generalizing links with
  | nil => exact eq_ite_apply links.precedents t u
  | cons s names ih =>
      rw [List.foldl_cons, ih (hlinks.link s t), hlinks.precedents_link, hlinks.precedents_link]
      by_cases hu : u = t
      · simp [hu]
      · simp [hu]

theorem Consistent.replacePrecedents (hlinks : links.Consistent) (t : String)
    (sources : List String) : (links.replacePrecedents t sources).Consistent :=
  (hlinks.clear t).foldl_link sources t

/-- A replacement moves the cell to the end of the lists it is in afterwards, and
takes it out of the others. -/
theorem Consistent.dependents_replacePrecedents (hlinks : links.Consistent) (t r : String)
    (sources : List String) :
    (links.replacePrecedents t sources).dependents r =
      if r ∈ sources then (links.dependents r).erase t ++ [t]
      else (links.dependents r).erase t := by
  have hnot : t ∉ (links.dependents r).erase t := (hlinks.nodup_dependents r).not_mem_erase
  calc (links.replacePrecedents t sources).dependents r
      = if r ∈ sources then appendNew ((links.replacePrecedents t []).dependents r) t
        else (links.replacePrecedents t []).dependents r := dependents_foldl_link sources t r
    _ = _ := by rw [hlinks.dependents_clear, appendNew_of_not_mem hnot]

theorem Consistent.precedents_replacePrecedents (hlinks : links.Consistent) (t u : String)
    (sources : List String) :
    (links.replacePrecedents t sources).precedents u =
      if u = t then sources.eraseDups else links.precedents u :=
  ((hlinks.clear t).precedents_foldl_link sources t u).trans
    (hlinks.precedents_clear_appendNew t u sources)

theorem Consistent.leads_replacePrecedents (hlinks : links.Consistent) {t r u : String}
    {sources : List String} :
    (links.replacePrecedents t sources).Leads r u ↔
      if u = t then r ∈ sources else links.Leads r u := by
  have hmem := (hlinks.replacePrecedents t sources).mem_precedents_iff r u
  rw [Leads, ← hmem, hlinks.precedents_replacePrecedents, Leads, ← hlinks.mem_precedents_iff]
  by_cases hu : u = t
  · rw [if_pos hu, if_pos hu, List.mem_eraseDups]
  · rw [if_neg hu, if_neg hu]

/-! ## Putting links back -/

theorem Consistent.foldl_linkAt (hlinks : links.Consistent) (places : List (String × Nat))
    (t : String) :
    (places.foldl (fun links place => links.linkAt place.1 t place.2) links).Consistent :=
  List.foldlRecOn places _ hlinks fun _ hnow place _ => hnow.linkAt place.1 t place.2

theorem dependents_foldl_linkAt (places : List (String × Nat)) (t r : String) :
    (places.foldl (fun links place => links.linkAt place.1 t place.2) links).dependents r =
      match places.lookup r with
      | some place => insertNew (links.dependents r) place t
      | none => links.dependents r := by
  induction places generalizing links with
  | nil => rfl
  | cons first places ih =>
      obtain ⟨s, place⟩ := first
      rw [List.foldl_cons, ih, dependents_linkAt]
      by_cases hr : r = s
      · subst hr
        -- A later place for the same precedent finds the link made.
        have hmem : t ∈ insertNew (links.dependents r) place t :=
          mem_insertNew.mpr (Or.inr rfl)
        rw [List.lookup_cons_self, if_pos rfl]
        cases places.lookup r with
        | none => rfl
        | some later => exact insertNew_of_mem hmem later
      · have hlookup : ((s, place) :: places).lookup r = places.lookup r := by
          rw [List.lookup_cons, beq_false_of_ne hr]
        rw [if_neg hr, hlookup]

theorem Consistent.precedents_foldl_linkAt (hlinks : links.Consistent)
    (places : List (String × Nat)) (t u : String) :
    (places.foldl (fun links place => links.linkAt place.1 t place.2) links).precedents u =
      if u = t then (places.map Prod.fst).foldl appendNew (links.precedents t)
      else links.precedents u := by
  induction places generalizing links with
  | nil => exact eq_ite_apply links.precedents t u
  | cons first places ih =>
      rw [List.foldl_cons, ih (hlinks.linkAt first.1 t first.2), hlinks.precedents_linkAt,
        hlinks.precedents_linkAt]
      by_cases hu : u = t
      · simp [hu]
      · simp [hu]

theorem Consistent.restorePrecedents (hlinks : links.Consistent) (saved : PrecedentPlaces) :
    (links.restorePrecedents saved).Consistent :=
  (hlinks.clear saved.cell).foldl_linkAt saved.places saved.cell

theorem Consistent.dependents_restorePrecedents (hlinks : links.Consistent)
    (saved : PrecedentPlaces) (r : String) :
    (links.restorePrecedents saved).dependents r =
      match saved.places.lookup r with
      | some place => insertNew ((links.dependents r).erase saved.cell) place saved.cell
      | none => (links.dependents r).erase saved.cell := by
  refine (dependents_foldl_linkAt saved.places saved.cell r).trans ?_
  rw [hlinks.dependents_clear]

theorem Consistent.precedents_restorePrecedents (hlinks : links.Consistent)
    (saved : PrecedentPlaces) (u : String) :
    (links.restorePrecedents saved).precedents u =
      if u = saved.cell then (saved.places.map Prod.fst).eraseDups else links.precedents u :=
  ((hlinks.clear saved.cell).precedents_foldl_linkAt saved.places saved.cell u).trans
    (hlinks.precedents_clear_appendNew saved.cell u (saved.places.map Prod.fst))

/-! ## Saving -/

theorem savePrecedents_cell (links : Links) (t : String) : (links.savePrecedents t).cell = t := rfl

theorem map_fst_savePrecedents (links : Links) (t : String) :
    (links.savePrecedents t).places.map Prod.fst = links.precedents t := by
  simp [savePrecedents, Function.comp_def]

theorem Consistent.lookup_savePrecedents (hlinks : links.Consistent) (t r : String) :
    (links.savePrecedents t).places.lookup r =
      if t ∈ links.dependents r then some ((links.dependents r).idxOf t) else none := by
  simp only [← hlinks.mem_precedents_iff, savePrecedents]
  have hplace : ∀ s ∈ links.precedents t,
      ((links.dependents s).idxOf? t).getD 0 = (links.dependents s).idxOf t := by
    intro s hs
    have hmem := (hlinks.mem_precedents_iff s t).mp hs
    rw [List.idxOf_eq_getD_idxOf?]
    cases hfound : (links.dependents s).idxOf? t with
    | none => exact absurd hmem (List.idxOf?_eq_none_iff.mp hfound)
    | some place => rfl
  -- Only the places of the precedents matter from here on, not that they are all of them.
  generalize links.precedents t = names at hplace
  induction names with
  | nil => simp
  | cons s names ih =>
      rw [List.map_cons, List.lookup_cons]
      by_cases hr : r = s
      · subst hr
        simp [hplace r (List.mem_cons_self ..)]
      · have hrest := ih fun name hname => hplace name (List.mem_cons_of_mem _ hname)
        rw [beq_false_of_ne hr, hrest]
        simp [hr]

/-! ## Apart from the links to one cell -/

/-- Whether two graphs have the same links in the same order, apart from those that lead
to `cell`. -/
structure AgreeApart (cell : String) (links other : Links) : Prop where
  dependents_eq : ∀ r, (links.dependents r).erase cell = (other.dependents r).erase cell
  precedents_eq : ∀ u, u ≠ cell → links.precedents u = other.precedents u

namespace AgreeApart

variable {cell : String} {first second third : Links}

theorem refl (cell : String) (links : Links) : AgreeApart cell links links :=
  ⟨fun _ => rfl, fun _ _ => rfl⟩

theorem trans (hfirst : AgreeApart cell first second) (hsecond : AgreeApart cell second third) :
    AgreeApart cell first third where
  dependents_eq r := (hfirst.dependents_eq r).trans (hsecond.dependents_eq r)
  precedents_eq u hu := (hfirst.precedents_eq u hu).trans (hsecond.precedents_eq u hu)

end AgreeApart

theorem Consistent.agreeApart_linkAt (hlinks : links.Consistent) (s t : String) (place : Nat) :
    AgreeApart t (links.linkAt s t place) links where
  dependents_eq r := by
    rw [dependents_linkAt]
    split
    · rename_i hr
      rw [hr, erase_insertNew]
    · rfl
  precedents_eq u hu := by rw [hlinks.precedents_linkAt, if_neg hu]

theorem Consistent.agreeApart_unlink (hlinks : links.Consistent) (s t : String) :
    AgreeApart t (links.unlink s t) links where
  dependents_eq r := by
    rw [dependents_unlink]
    split
    · rename_i hr
      rw [hr, List.erase_of_not_mem (hlinks.nodup_dependents s).not_mem_erase]
    · rfl
  precedents_eq u hu := by rw [hlinks.precedents_unlink, if_neg hu]

theorem Consistent.agreeApart_replacePrecedents (hlinks : links.Consistent) (t : String)
    (sources : List String) : AgreeApart t (links.replacePrecedents t sources) links where
  dependents_eq r := by
    have hnot : t ∉ (links.dependents r).erase t := (hlinks.nodup_dependents r).not_mem_erase
    rw [hlinks.dependents_replacePrecedents]
    split
    · rw [List.erase_append_right _ hnot]
      simp
    · exact List.erase_of_not_mem hnot
  precedents_eq u hu := by rw [hlinks.precedents_replacePrecedents, if_neg hu]

theorem Consistent.agreeApart_restorePrecedents (hlinks : links.Consistent)
    (saved : PrecedentPlaces) : AgreeApart saved.cell (links.restorePrecedents saved) links where
  dependents_eq r := by
    have hnot : saved.cell ∉ (links.dependents r).erase saved.cell :=
      (hlinks.nodup_dependents r).not_mem_erase
    rw [hlinks.dependents_restorePrecedents]
    split
    · rw [erase_insertNew, List.erase_of_not_mem hnot]
    · rw [List.erase_of_not_mem hnot]
  precedents_eq u hu := by rw [hlinks.precedents_restorePrecedents, if_neg hu]

/-! ## Restoring what was saved -/

variable {now : Links} {cell : String}

theorem Consistent.precedents_restore_save (hlinks : links.Consistent) (hnow : now.Consistent)
    (cell : String) :
    (now.restorePrecedents (links.savePrecedents cell)).precedents cell =
      links.precedents cell := by
  rw [hnow.precedents_restorePrecedents, savePrecedents_cell, if_pos rfl, map_fst_savePrecedents,
    eraseDups_eq_self (hlinks.nodup_precedents cell)]

/-- A cell that was among the dependents of `r` is back at its place, if the others are
where they were. -/
theorem Consistent.dependents_restore_save (hlinks : links.Consistent) (hnow : now.Consistent)
    {r : String} (hothers : (now.dependents r).erase cell = (links.dependents r).erase cell) :
    (now.restorePrecedents (links.savePrecedents cell)).dependents r = links.dependents r := by
  rw [hnow.dependents_restorePrecedents, hlinks.lookup_savePrecedents, savePrecedents_cell,
    hothers]
  by_cases hcell : cell ∈ links.dependents r
  · rw [if_pos hcell]
    exact insertNew_idxOf_erase (hlinks.nodup_dependents r) hcell
  · rw [if_neg hcell]
    exact List.erase_of_not_mem hcell

/-- To restore the saved precedents of a cell gives back the graph of the save, if only
links to the cell have changed since. -/
theorem AgreeApart.restorePrecedents_savePrecedents (hagree : AgreeApart cell now links)
    (hlinks : links.Consistent) (hnow : now.Consistent) :
    now.restorePrecedents (links.savePrecedents cell) = links := by
  -- The lists tell the whole graph, so it is enough to follow both directions.
  apply (hnow.restorePrecedents (links.savePrecedents cell)).ext hlinks
  · exact fun r => hlinks.dependents_restore_save hnow (hagree.dependents_eq r)
  · intro u
    by_cases hu : u = cell
    · rw [hu, hlinks.precedents_restore_save hnow]
    · have hrestored := hnow.agreeApart_restorePrecedents (links.savePrecedents cell)
      exact (hrestored.precedents_eq u hu).trans (hagree.precedents_eq u hu)

/-- To replace the precedents of a cell and to restore the saved ones changes
nothing. -/
theorem Consistent.restorePrecedents_replacePrecedents (hlinks : links.Consistent) (t : String)
    (sources : List String) :
    (links.replacePrecedents t sources).restorePrecedents (links.savePrecedents t) = links :=
  (hlinks.agreeApart_replacePrecedents t sources).restorePrecedents_savePrecedents hlinks
    (hlinks.replacePrecedents t sources)

end Links

end Worksheet
