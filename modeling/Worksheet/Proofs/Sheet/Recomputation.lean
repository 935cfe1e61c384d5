import Worksheet.Proofs.Cell.Mentions

/-!
# Recomputing cells one after the other

A value is up to date if its content gives it when the names in it are looked up among
the values as they are.  `Sheet.refresh` brings one value up to date and may put others
out of date, namely those of the cells that mention it.

So a list of cells has to be worked off with each cell behind those that it mentions:
then no later step touches what an earlier one has read
(`upToDate_foldl_refresh_of_mem`).  If the list holds with a cell all those that
mention it, the cells outside of it have nothing to fear either, and after the last
step everything is up to date (`upToDate_foldl_refresh`).
-/

namespace Worksheet.Sheet

variable {cells : CellTable} {values : Std.ExtTreeMap String CellValue}

/-- Whether the value of a cell is what its content gives with the other values as they
are.  A cell without content has no value. -/
def UpToDate (cells : CellTable) (values : Std.ExtTreeMap String CellValue) (name : String) :
    Prop :=
  values[name]? = (cells.content? name).map fun content => content.value (numberOf? values)

theorem numberOf?_congr {first second : Std.ExtTreeMap String CellValue} {name : String}
    (hagree : first[name]? = second[name]?) : numberOf? first name = numberOf? second name := by
  simp only [numberOf?, hagree]

/-- What a content gives depends on the values of the cells that it mentions. -/
theorem map_value_congr {first second : Std.ExtTreeMap String CellValue} {name : String}
    (hagree : ∀ other ∈ cells.mentions name, first[other]? = second[other]?) :
    ((cells.content? name).map fun content => content.value (numberOf? first)) =
      (cells.content? name).map fun content => content.value (numberOf? second) := by
  cases hcontent : cells.content? name with
  | none => rfl
  | some content =>
      rw [CellTable.mentions_of_content? hcontent] at hagree
      simp only [Option.map_some]
      rw [content.value_congr fun other hother => numberOf?_congr (hagree other hother)]

theorem getElem?_refresh (cells : CellTable) (values : Std.ExtTreeMap String CellValue)
    (name other : String) :
    (refresh cells values name)[other]? =
      if other = name then
        (cells.content? name).map fun content => content.value (numberOf? values)
      else values[other]? := by
  unfold refresh
  by_cases hother : other = name
  · subst hother
    cases cells.content? other <;> simp
  · have hne : name ≠ other := fun heq => hother heq.symm
    cases cells.content? name <;>
      simp [hother, hne, Std.ExtTreeMap.getElem?_insert, Std.ExtTreeMap.getElem?_erase]

theorem getElem?_foldl_refresh_of_not_mem {order : List String} {name : String}
    (hname : name ∉ order) :
    (order.foldl (refresh cells) values)[name]? = values[name]? := by
  induction order generalizing values with
  | nil => rfl
  | cons first order ih =>
      obtain ⟨hne, hrest⟩ := not_or.mp (mt List.mem_cons.mpr hname)
      rw [List.foldl_cons, ih hrest, getElem?_refresh, if_neg hne]

/-- A cell that has been worked off stays up to date, because nothing that it mentions
comes later. -/
theorem upToDate_foldl_refresh_of_mem {order : List String} (hnodup : order.Nodup)
    (hordered : order.Pairwise fun earlier later => later ∉ cells.mentions earlier)
    (hself : ∀ name ∈ order, name ∉ cells.mentions name) {name : String} (hname : name ∈ order) :
    UpToDate cells (order.foldl (refresh cells) values) name := by
  induction order generalizing values with
  | nil => cases hname
  | cons first order ih =>
      obtain ⟨hfirst, hnodup⟩ := List.nodup_cons.mp hnodup
      obtain ⟨hbehind, hordered⟩ := List.pairwise_cons.mp hordered
      obtain ⟨hfirstself, hself⟩ := List.forall_mem_cons.mp hself
      rw [List.foldl_cons]
      rcases List.mem_cons.mp hname with rfl | hname
      · have hkept : ∀ other ∈ cells.mentions name,
            values[other]? = (order.foldl (refresh cells) (refresh cells values name))[other]? := by
          intro other hother
          have hlater : other ∉ order := fun hmem => hbehind other hmem hother
          have hne : other ≠ name := fun heq => hfirstself (heq ▸ hother)
          rw [getElem?_foldl_refresh_of_not_mem hlater, getElem?_refresh, if_neg hne]
        unfold UpToDate
        rw [getElem?_foldl_refresh_of_not_mem hfirst, getElem?_refresh, if_pos rfl]
        exact map_value_congr hkept
      · exact ih hnodup hordered hself hname

/-- After a change of some contents, working off the changed cells and all that mention
them brings every cell up to date. -/
theorem upToDate_foldl_refresh {before : CellTable} {order : List String}
    (hbefore : ∀ name, UpToDate before values name) (hnodup : order.Nodup)
    (hordered : order.Pairwise fun earlier later => later ∉ cells.mentions earlier)
    (hself : ∀ name ∈ order, name ∉ cells.mentions name)
    (hclosed : ∀ mentioned ∈ order, ∀ name, mentioned ∈ cells.mentions name → name ∈ order)
    (hsame : ∀ name, name ∉ order → cells.content? name = before.content? name) (name : String) :
    UpToDate cells (order.foldl (refresh cells) values) name := by
  by_cases hname : name ∈ order
  · exact upToDate_foldl_refresh_of_mem hnodup hordered hself hname
  · -- A cell outside of the order mentions none of the cells in it.
    have hkept : ∀ other ∈ cells.mentions name,
        values[other]? = (order.foldl (refresh cells) values)[other]? := by
      intro other hother
      have hlater : other ∉ order := fun hmem => hname (hclosed other hmem name hother)
      exact (getElem?_foldl_refresh_of_not_mem hlater).symm
    calc (order.foldl (refresh cells) values)[name]?
        = values[name]? := getElem?_foldl_refresh_of_not_mem hname
      _ = (before.content? name).map fun content => content.value (numberOf? values) :=
          hbefore name
      _ = (cells.content? name).map fun content => content.value (numberOf? values) := by
          rw [hsame name hname]
      _ = _ := map_value_congr hkept

end Worksheet.Sheet
