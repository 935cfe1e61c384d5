import Worksheet.Proofs.Cell.Mentions
import Worksheet.Proofs.Text.ByteOrder

/-!
# Changes of a table of cells

A table of cells is changed by setting cells and by restoring them.  `CellTable.after` is the
table after some changes, and `CellTable.givenBack` is what setting cells has given back on
the way.

Whatever the changes, a table lists its cells in the order of their names, byte by byte, and
each of them holds what was last put into it.  It holds no empty text if only what has been
given back is restored, under the same name or another: setting a cell never stores the empty
text, and therefore never gives it back.  To restore all that has been given back, the latest
first, undoes any settings (`CellTable.recordsChanges_after`).
-/

namespace Worksheet

/-- What may be done to a table of cells. -/
inductive CellChange where
  | set (name : String) (content : CellContent)
  | restore (name : String) (content : Option CellContent)

namespace CellChange

/-- The name of the cell that is changed. -/
def name : CellChange → String
  | set name _ => name
  | restore name _ => name

/-- What a change puts into its cell, or nothing if it clears it. -/
def puts : CellChange → Option CellContent
  | set _ content => if content.isEmpty then none else some content
  | restore _ content => content

/-- No cell is set to the empty text. -/
theorem isEmpty_of_puts_set {name : String} {content put : CellContent}
    (hputs : (set name content).puts = some put) : put.isEmpty = false := by
  rw [puts] at hputs
  split at hputs
  · cases hputs
  · rename_i hempty
    cases hputs
    simpa using hempty

end CellChange

namespace CellTable

/-- The table after one change. -/
def change (table : CellTable) : CellChange → CellTable
  | .set name content => (table.set name content).2
  | .restore name content => table.restore name content

/-- The table after some changes, one after the other. -/
def after (table : CellTable) (changes : List CellChange) : CellTable := changes.foldl change table

/-- What setting cells gives back in the course of some changes, with the names of the cells,
the latest last. -/
def givenBack (table : CellTable) : List CellChange → List (String × Option CellContent)
  | [] => []
  | .set name content :: changes =>
      (name, (table.set name content).1) :: (table.set name content).2.givenBack changes
  | .restore name content :: changes => (table.restore name content).givenBack changes

variable {table : CellTable}

theorem after_cons (table : CellTable) (change : CellChange) (changes : List CellChange) :
    table.after (change :: changes) = (table.change change).after changes := rfl

theorem after_append (table : CellTable) (changes more : List CellChange) :
    table.after (changes ++ more) = (table.after changes).after more :=
  List.foldl_append

theorem after_append_singleton (table : CellTable) (changes : List CellChange)
    (last : CellChange) : table.after (changes ++ [last]) = (table.after changes).change last :=
  table.after_append changes [last]

theorem givenBack_append (table : CellTable) (changes more : List CellChange) :
    table.givenBack (changes ++ more) =
      table.givenBack changes ++ (table.after changes).givenBack more := by
  induction changes generalizing table with
  | nil => rfl
  | cons change changes ih =>
      cases change with
      | set name content => exact congrArg (List.cons _) (ih _)
      | restore name content => exact ih _

/-! ## What a table lists -/

/-- Whether the lists and counts of a table tell what it holds, in the order of the bytes of
the names. -/
structure IsSortedMap (table : CellTable) : Prop where
  increasing_names : table.names.Pairwise fun first second => Text.bytes first < Text.bytes second
  mem_names_iff : ∀ name, name ∈ table.names ↔ ∃ content, table.content? name = some content
  size_eq : table.size = table.names.length
  isEmpty_iff : table.isEmpty = true ↔ table.names = []
  map_fst_toList : table.toList.map Prod.fst = table.names
  mem_toList_iff : ∀ name content,
    (name, content) ∈ table.toList ↔ table.content? name = some content

theorem isSortedMap (table : CellTable) : table.IsSortedMap where
  increasing_names := by
    have hordered := Std.ExtTreeMap.ordered_keys (t := table.cells)
    exact hordered.imp fun hlt => Text.bytes_lt_bytes (compareOfLessAndEq_eq_lt.mp hlt)
  mem_names_iff _ := mem_names_iff
  size_eq := Std.ExtTreeMap.length_keys.symm
  isEmpty_iff := by
    rw [isEmpty, names, ← Std.ExtTreeMap.isEmpty_keys, List.isEmpty_iff]
  map_fst_toList := Std.ExtTreeMap.map_fst_toList_eq_keys
  mem_toList_iff _ _ := mem_toList_iff

/-! ## What was last put into a cell -/

theorem content?_change (table : CellTable) (change : CellChange) (name : String) :
    (table.change change).content? name =
      if name = change.name then change.puts else table.content? name := by
  cases change with
  | set cell content => exact table.content?_set cell name content
  | restore cell content => exact table.content?_restore cell name content

theorem content?_after_of_untouched (table : CellTable) {changes : List CellChange} {name : String}
    (huntouched : ∀ change ∈ changes, change.name ≠ name) :
    (table.after changes).content? name = table.content? name := by
  induction changes generalizing table with
  | nil => rfl
  | cons change changes ih =>
      obtain ⟨hchange, hchanges⟩ := List.forall_mem_cons.mp huntouched
      rw [after_cons, ih _ hchanges, content?_change, if_neg hchange.symm]

theorem content?_after_of_last (table : CellTable) (earlier : List CellChange)
    {change : CellChange} {later : List CellChange}
    (hlater : ∀ next ∈ later, next.name ≠ change.name) :
    (table.after (earlier ++ change :: later)).content? change.name = change.puts := by
  rw [after_append, after_cons, content?_after_of_untouched _ hlater, content?_change,
    if_pos rfl]

/-! ## No empty cells -/

/-- Whether no cell holds the empty text. -/
def HasNoEmptyCell (table : CellTable) : Prop :=
  ∀ name content, table.content? name = some content → content.isEmpty = false

/-- Whether a content is restored only if it has been given back before, for whichever cell. -/
def RestoresGivenBack (table : CellTable) (changes : List CellChange) : Prop :=
  ∀ earlier name content later, changes = earlier ++ .restore name (some content) :: later →
    some content ∈ (table.givenBack earlier).map Prod.snd

theorem hasNoEmptyCell_empty : (∅ : CellTable).HasNoEmptyCell := by
  intro name content hcontent
  rw [content?_empty] at hcontent
  cases hcontent

theorem HasNoEmptyCell.change (htable : table.HasNoEmptyCell) {change : CellChange}
    (hputs : ∀ content, change.puts = some content → content.isEmpty = false) :
    (table.change change).HasNoEmptyCell := by
  intro name content hcontent
  rw [content?_change] at hcontent
  split at hcontent
  · exact hputs content hcontent
  · exact htable name content hcontent

theorem RestoresGivenBack.of_append {earlier later : List CellChange}
    (hchanges : table.RestoresGivenBack (earlier ++ later)) : table.RestoresGivenBack earlier := by
  intro before name content between hearlier
  refine hchanges before name content (between ++ later) ?_
  rw [hearlier, List.append_assoc, List.cons_append]

/-- What is given back has been in the table, and what is restored has been given back, so
that neither the table nor what it has given back is the first to hold an empty text. -/
theorem HasNoEmptyCell.after (htable : table.HasNoEmptyCell) {changes : List CellChange}
    (hchanges : table.RestoresGivenBack changes) :
    (table.after changes).HasNoEmptyCell ∧
      ∀ content, some content ∈ (table.givenBack changes).map Prod.snd →
        content.isEmpty = false := by
  induction changes using List.reverseRecOn with
  | nil => exact ⟨htable, fun _ hnone => by cases hnone⟩
  | append_singleton earlier last ih =>
      obtain ⟨hearlier, hgiven⟩ := ih hchanges.of_append
      rw [after_append_singleton, givenBack_append]
      cases last with
      | set name content =>
          refine ⟨hearlier.change fun _ => CellChange.isEmpty_of_puts_set, ?_⟩
          intro found hfound
          rw [List.map_append, List.mem_append] at hfound
          rcases hfound with hfound | hfound
          · exact hgiven found hfound
          · exact hearlier name found (List.mem_singleton.mp hfound).symm
      | restore name content =>
          refine ⟨hearlier.change fun found hputs => ?_, fun found hfound => ?_⟩
          · obtain rfl : content = some found := hputs
            exact hgiven found (hchanges earlier name found [] rfl)
          · rw [givenBack, givenBack, List.append_nil] at hfound
            exact hgiven found hfound

/-! ## Undoing settings -/

/-- The changes that put back what has been given back, the latest first. -/
def undoing (table : CellTable) (changes : List CellChange) : List CellChange :=
  (table.givenBack changes).reverse.map fun held => .restore held.1 held.2

theorem undoing_set_cons (table : CellTable) (name : String) (content : CellContent)
    (changes : List CellChange) :
    table.undoing (.set name content :: changes) =
      (table.set name content).2.undoing changes ++
        [.restore name (table.set name content).1] := by
  rw [undoing, givenBack, List.reverse_cons, List.map_append]
  rfl

/-- The cell that was set first is restored last, and by then the others are back. -/
theorem after_undoing (table : CellTable) (cells : List (String × CellContent)) :
    let settings := cells.map fun cell => CellChange.set cell.1 cell.2
    (table.after settings).after (table.undoing settings) = table := by
  intro settings
  induction cells generalizing table with
  | nil => rfl
  | cons cell cells ih =>
      obtain ⟨name, content⟩ := cell
      let others := cells.map fun cell => CellChange.set cell.1 cell.2
      let next := (table.set name content).2
      have hsettings : settings = .set name content :: others := rfl
      calc (table.after settings).after (table.undoing settings)
          = (next.after others).after
              (next.undoing others ++ [.restore name (table.set name content).1]) := by
            rw [hsettings, undoing_set_cons, after_cons]
            rfl
        _ = ((next.after others).after (next.undoing others)).restore name
              (table.set name content).1 := after_append_singleton _ _ _
        _ = next.restore name (table.set name content).1 := by rw [ih next]
        _ = table := table.restore_set name content

/-! ## All together -/

/-- Whether a table is what some changes have made of another. -/
structure RecordsChanges (start : CellTable) (changes : List CellChange) (table : CellTable) : Prop
    extends table.IsSortedMap where
  content?_of_last : ∀ earlier change later, changes = earlier ++ change :: later →
    (∀ next ∈ later, next.name ≠ change.name) → table.content? change.name = change.puts
  content?_of_untouched : ∀ name, (∀ change ∈ changes, change.name ≠ name) →
    table.content? name = start.content? name
  /-- An empty text may only come from a table that is not new, or from outside. -/
  hasNoEmptyCell : start.HasNoEmptyCell → start.RestoresGivenBack changes → table.HasNoEmptyCell

/-- After any changes, a table lists in order what was last put into its cells.  It holds no empty
text as long as only contents are restored that have been given back, and any settings can be
undone. -/
theorem recordsChanges_after (start : CellTable) (changes : List CellChange)
    (cells : List (String × CellContent)) :
    RecordsChanges start changes (start.after changes) ∧
      let settings := cells.map fun cell => CellChange.set cell.1 cell.2
      (start.after settings).after (start.undoing settings) = start := by
  refine ⟨?_, start.after_undoing cells⟩
  exact {
    toIsSortedMap := isSortedMap _
    content?_of_last := by
      rintro earlier change later rfl hlater
      exact start.content?_after_of_last earlier hlater
    content?_of_untouched := fun _ => start.content?_after_of_untouched
    hasNoEmptyCell := fun hstart hchanges => (hstart.after hchanges).1 }

/-- A cell is cleared that there has never been, another is set twice, and what it held in between
comes back in a third. -/
theorem recordsChanges_after_move :
    let settings := [CellChange.set "c" (.text ""), .set "b" (.text "x"), .set "b" (.text "y")]
    let changes := settings ++ [.restore "a" (some (.text "x"))]
    let table := (∅ : CellTable).after changes
    (∅ : CellTable).HasNoEmptyCell ∧ (∅ : CellTable).RestoresGivenBack changes ∧
      table.HasNoEmptyCell ∧ table.names = ["a", "b"] ∧ table.content? "c" = none ∧
        table.content? "b" = some (.text "y") ∧ table.content? "a" = some (.text "x") := by
  intro settings changes table
  have hrestores : (∅ : CellTable).RestoresGivenBack changes := by
    intro earlier name content later hchanges
    have hgiven : (∅ : CellTable).givenBack settings =
        [("c", none), ("b", none), ("b", some (.text "x"))] := rfl
    -- Nothing is restored before all cells have been set.
    rcases earlier with _ | ⟨first, _ | ⟨second, _ | ⟨third, _ | ⟨fourth, others⟩⟩⟩⟩
    · simp [changes, settings] at hchanges
    · simp [changes, settings] at hchanges
    · simp [changes, settings] at hchanges
    · change settings ++ _ = [first, second, third] ++ _ at hchanges
      obtain ⟨hsettings, hrestore⟩ := List.append_inj hchanges rfl
      obtain ⟨-, hcontent⟩ := CellChange.restore.inj (List.cons.inj hrestore).1
      rw [← hsettings, hgiven, ← hcontent]
      simp
    · simp [changes, settings] at hchanges
  have hrecords := (recordsChanges_after ∅ changes []).1
  refine ⟨hasNoEmptyCell_empty, hrestores,
    hrecords.hasNoEmptyCell hasNoEmptyCell_empty hrestores, by decide +kernel, ?_, ?_, ?_⟩
  · exact hrecords.content?_of_last [] _ (changes.drop 1) rfl
      (by simp [changes, settings, CellChange.name])
  · exact hrecords.content?_of_last (settings.take 2) _ (changes.drop 3) rfl
      (by simp [changes, settings, CellChange.name])
  · exact hrecords.content?_of_last settings _ [] rfl (by simp)

end CellTable

end Worksheet
