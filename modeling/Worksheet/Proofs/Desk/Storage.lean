import Worksheet.Name.Stock
import Worksheet.Proofs.Desk.Rebuilding
import Worksheet.Proofs.Desk.Values
import Worksheet.Proofs.Snapshot.Text

/-!
# Putting a sheet away and getting it back

A sheet whose cells have been typed in comes back from its snapshot, and from a file that
it has been saved to, with the same cells, contents, values and pairs of linked cells
(`Desk.mirrors_after_save`).  The snapshot holds literals only, and its entries come in the
order of their names, not in an order in which they could be computed.

## Strategy

Every cell that has been typed in can be typed in again (`Sheet.ReadsBack`).  The contents
of the sheet are therefore a table that the entries of its snapshot show, and no cell of it
uses itself, so they can be typed in one after the other.  Values and links follow from the
contents (`Sheet.Sound.mirrors`).
-/

namespace Worksheet

/-! ## Files keep texts -/

namespace Folder

theorem fromUTF8?_toUTF8 (text : String) : String.fromUTF8? text.toUTF8 = some text :=
  dif_pos text.isValidUTF8

/-- A file holds the bytes of the text that was written to it. -/
theorem read_of_writeText {folder saved : Folder} {file text : String}
    (hwrite : folder.writeText file text = .ok saved) : saved.read file = .ok text.toUTF8 := by
  unfold writeText write at hwrite
  cases hfault : nameFault? file with
  | some fault =>
      rw [hfault] at hwrite
      cases hwrite
  | none =>
      rw [hfault] at hwrite
      cases hwrite
      rw [read, hfault, Std.ExtTreeMap.getElem?_insert_self]

/-- The other files hold what they held. -/
theorem read_of_writeText_of_ne {folder saved : Folder} {file other text : String}
    (hwrite : folder.writeText file text = .ok saved) (hne : other ≠ file) :
    saved.read other = folder.read other := by
  unfold writeText write at hwrite
  split at hwrite
  · cases hwrite
  · cases hwrite
    have hfile : compare file other ≠ .eq := fun heq => hne (Std.LawfulEqCmp.eq_of_compare heq).symm
    rw [read, read, Std.ExtTreeMap.getElem?_insert, if_neg hfile]

theorem readText_of_read {folder : Folder} {file text : String}
    (hread : folder.read file = .ok text.toUTF8) : folder.readText file = .ok text := by
  simp only [readText, hread, bind, Except.bind, fromUTF8?_toUTF8]

end Folder

namespace Sheet

variable {sheet : Sheet}

/-! ## Cells that can be typed in again -/

/-- Whether every cell can be typed in again: its name is its own stored form, and its
literal stands for its content. -/
def ReadsBack (sheet : Sheet) : Prop :=
  ∀ name content, sheet.cells.content? name = some content →
    sheet.options.rules.resolve name = some name ∧ content.ReadsBack sheet.options.rules

theorem readsBack_empty (options : SheetOptions) : (empty options).ReadsBack :=
  fun name content hcontent => by simp [empty, CellTable.content?_empty] at hcontent

/-- What is typed in can be typed in again. -/
theorem ReadsBack.enter (hreads : sheet.ReadsBack) (hlinks : sheet.links.Consistent)
    (hrules : sheet.options.rules.IsIdempotent) (name literal : String) :
    (sheet.enter name literal).sheet.ReadsBack := by
  rcases edit_cases hlinks name (CellContent.enter sheet.options.rules literal) with
    ⟨cause, hedit⟩ | ⟨stored, accepted, order, hname, hcontent, -, hedit⟩
  · rw [Sheet.enter, hedit]
    exact hreads
  · rw [Sheet.enter, hedit]
    intro other found hfound
    rcases CellTable.content?_set_cases hfound with ⟨rfl, rfl, -⟩ | hbefore
    · exact ⟨hrules.resolve_stored (resolve_eq_ok_iff.mp hname),
        CellContent.readsBack_of_enter hrules hcontent⟩
    · exact hreads other found hbefore

/-! ## Sheets that are alike -/

/-- Whether two sheets have the same cells with the same contents and values, and the same
pairs of linked cells. -/
structure Mirrors (sheet other : Sheet) : Prop where
  names_eq : sheet.names = other.names
  cells_eq : sheet.cells = other.cells
  values_eq : sheet.values = other.values
  pairs_eq : sheet.links.pairs = other.links.pairs

/-- All that a sound sheet shows follows from its contents. -/
theorem Sound.mirrors {other : Sheet} (hsheet : sheet.Sound) (hother : other.Sound)
    (hcells : sheet.cells = other.cells) : sheet.Mirrors other where
  names_eq := congrArg CellTable.names hcells
  cells_eq := hcells
  values_eq := hsheet.values_eq hother hcells
  pairs_eq := by
    ext ⟨mentioned, cell⟩
    rw [Links.mem_pairs, Links.mem_pairs, hsheet.toLinked.leads_iff, hother.toLinked.leads_iff,
      hcells]

/-! ## From a snapshot -/

theorem mem_toList_snapshot {entry : String × String} :
    entry ∈ sheet.snapshot.toList ↔
      ∃ content, sheet.cells.content? entry.1 = some content ∧ content.literal = entry.2 := by
  rw [Snapshot.toList, Std.ExtTreeMap.mem_toList_iff_getElem?_eq_some, snapshot,
    Std.ExtTreeMap.getElem?_map, Option.map_eq_some_iff]
  rfl

/-- The contents of a sheet are what the entries of its snapshot say. -/
theorem ReadsBack.shows (hreads : sheet.ReadsBack) (hsheet : sheet.Sound)
    {entry : String × String} (hentry : entry ∈ sheet.snapshot.toList) :
    sheet.cells.Shows sheet.options.rules entry := by
  obtain ⟨content, hcontent, hliteral⟩ := mem_toList_snapshot.mp hentry
  obtain ⟨hname, hback⟩ := hreads entry.1 content hcontent
  refine ⟨entry.1, content, hname, hliteral ▸ CellContent.enter_literal hback, ?_⟩
  rw [hsheet.not_isEmpty entry.1 content hcontent]
  exact hcontent

/-- The entries of the snapshot are for the cells of the sheet. -/
theorem ReadsBack.targets_snapshot (hreads : sheet.ReadsBack) :
    sheet.options.rules.targets sheet.snapshot.toList = sheet.names := by
  have hself : ∀ entry ∈ sheet.snapshot.toList,
      sheet.options.rules.resolve entry.1 = some entry.1 := by
    intro entry hentry
    obtain ⟨content, hcontent, -⟩ := mem_toList_snapshot.mp hentry
    exact (hreads entry.1 content hcontent).1
  calc sheet.options.rules.targets sheet.snapshot.toList
      = sheet.snapshot.toList.filterMap fun entry => some entry.1 := List.filterMap_congr hself
    _ = sheet.snapshot.toList.map Prod.fst := congrFun List.filterMap_eq_map _
    _ = sheet.names := by
        rw [Snapshot.toList, Std.ExtTreeMap.map_fst_toList_eq_keys]
        exact Std.ExtTreeMap.keys_map

/-- A sheet is rebuilt from its snapshot. -/
theorem ReadsBack.exists_ofSnapshot (hreads : sheet.ReadsBack) (hsheet : sheet.Sound) :
    ∃ rebuilt, ofSnapshot sheet.snapshot sheet.options = .ok rebuilt ∧
      rebuilt.Mirrors sheet ∧ rebuilt.modified = false := by
  have hempty := sound_empty sheet.options
  have hacyclic : ∀ name, ¬ Relation.TransGen sheet.cells.MentionedBy name name := by
    rw [hsheet.toLinked.mentionedBy_eq]
    exact hsheet.acyclic
  have hentries : ∀ entry ∈ sheet.snapshot.toList,
      sheet.cells.Shows sheet.options.rules entry := fun _ hentry => hreads.shows hsheet hentry
  have hdistinct : (sheet.options.rules.targets sheet.snapshot.toList).Nodup := by
    rw [hreads.targets_snapshot]
    exact sheet.cells.cells.nodup_keys
  obtain ⟨filled, hfold⟩ :=
    hempty.exists_foldlM_enterEntry (CellTable.within_empty sheet.cells) hacyclic hentries
  obtain ⟨hshows, helsewhere⟩ := hempty.shows_of_foldlM hdistinct hfold
  have hsame : filled.cells = sheet.cells := by
    apply CellTable.eq_of_shows hshows hentries
    intro name hname
    have hnone : sheet.cells.content? name = none := by
      change name ∉ sheet.options.rules.targets sheet.snapshot.toList at hname
      rw [hreads.targets_snapshot, names, CellTable.mem_names_iff, not_exists] at hname
      exact Option.eq_none_iff_forall_ne_some.mpr hname
    rw [helsewhere name hname, hnone]
    exact CellTable.content?_empty name
  refine ⟨{ filled with modified := false }, ?_, ?_, rfl⟩
  · exact ofSnapshot_eq_ok_iff.mpr ⟨rfl, filled, hfold, rfl⟩
  · exact ((hempty.of_foldlM hfold).marked filled.file false).mirrors hsheet hsame

theorem ofText_text (snapshot : Snapshot) (options : SheetOptions) :
    ofText snapshot.text options = ofSnapshot snapshot options := by
  rw [ofText, Snapshot.read?_of_writes snapshot.writes_toList_text]

end Sheet

/-! ## From a file -/

namespace Desk

open Sheet (Mirrors)

/-- What has been typed in at a desk can be typed in again. -/
theorem readsBack_after {options : SheetOptions} (hrules : options.rules.IsIdempotent)
    (folder : Folder) (edits : List (String × String)) :
    let sheet := ((opened options folder).after
      (edits.map fun edit => .enter edit.1 edit.2)).sheet
    sheet.options = options ∧ sheet.ReadsBack := by
  have hkeep : ∀ desk : Desk, desk.sheet.Sound → desk.sheet.options = options →
      desk.sheet.ReadsBack →
        let sheet := (desk.after (edits.map fun edit => .enter edit.1 edit.2)).sheet
        sheet.options = options ∧ sheet.ReadsBack := by
    induction edits with
    | nil => exact fun _ _ hoptions hreads => ⟨hoptions, hreads⟩
    | cons edit edits ih =>
        intro desk hdesk hoptions hreads
        refine ih _ (sound_perform hdesk (.enter edit.1 edit.2)) ?_ ?_
        · exact (Sheet.options_edit hdesk.consistent _ _).trans hoptions
        · exact hreads.enter hdesk.consistent (hoptions ▸ hrules) edit.1 edit.2
  exact hkeep _ (Sheet.sound_empty options) rfl (Sheet.readsBack_empty options)

/-- A sheet into which cells have been typed, whether they were accepted or not, is
rebuilt from its snapshot, and loaded from a file that it was saved to as long as the file
is as it was written. -/
theorem mirrors_after_save {options : SheetOptions} (hrules : options.rules.IsIdempotent)
    (folder : Folder) (edits : List (String × String)) :
    let desk := (opened options folder).after (edits.map fun edit => .enter edit.1 edit.2)
    (∀ file saved, desk.save file = (.ok (), saved) →
      ∀ later : Folder, later.read file = saved.folder.read file →
        ∃ loaded, Sheet.load later file options = .ok loaded ∧ loaded.Mirrors desk.sheet ∧
          loaded.modified = false ∧ loaded.file = some file) ∧
    ∃ rebuilt, Sheet.ofSnapshot desk.sheet.snapshot options = .ok rebuilt ∧
      rebuilt.Mirrors desk.sheet := by
  intro desk
  have hsheet : desk.sheet.Sound := sound_after options folder _
  obtain ⟨hoptions, hreads⟩ := readsBack_after hrules folder edits
  obtain ⟨rebuilt, hrebuilt, hmirrors, hmodified⟩ := hreads.exists_ofSnapshot hsheet
  rw [hoptions] at hrebuilt
  refine ⟨fun file saved hsave later hlater => ?_, rebuilt, hrebuilt, hmirrors⟩
  unfold save at hsave
  cases hwrite : desk.folder.writeText file desk.sheet.snapshot.text with
  | error fault =>
      rw [hwrite] at hsave
      cases hsave
  | ok written =>
      rw [hwrite] at hsave
      cases hsave
      have htext : later.readText file = .ok desk.sheet.snapshot.text :=
        Folder.readText_of_read (hlater.trans (Folder.read_of_writeText hwrite))
      refine ⟨{ rebuilt with file := some file }, ?_, ?_, hmodified, rfl⟩
      · rw [Sheet.load, Sheet.fileText, htext]
        change (Sheet.ofText desk.sheet.snapshot.text options >>= _) = _
        rw [Sheet.ofText_text, hrebuilt]
        rfl
      · exact ⟨hmirrors.names_eq, hmirrors.cells_eq, hmirrors.values_eq, hmirrors.pairs_eq⟩

/-- `Area` comes before the `Base` that it uses, the circle is refused, and long names are
cut off. -/
theorem mirrors_after_save_of_circle :
    let options : SheetOptions := { rules := .stock (.truncate 2) .all, version := "\"1\"" }
    let edits := [("Area", "= Base * 2.50"), ("Base", "-0"), ("Base", "=Area")]
    let desk := (opened options ∅).after (edits.map fun edit => .enter edit.1 edit.2)
    desk.sheet.names = ["Ar", "Ba"] ∧
      ∃ saved loaded, desk.save "s" = (.ok (), saved) ∧
        Sheet.load saved.folder "s" options = .ok loaded ∧ loaded.Mirrors desk.sheet := by
  intro options edits desk
  have hrules : options.rules.IsIdempotent := fun name => by
    simp [options, NameRules.stock, Normalizer.apply, List.take_take]
  have hnames : desk.sheet.names = ["Ar", "Ba"] := by decide +kernel
  have hok : (desk.save "s").1 = .ok () := by decide +kernel
  have hsave : desk.save "s" = (.ok (), (desk.save "s").2) := Prod.ext hok rfl
  obtain ⟨loaded, hload, hmirrors, -⟩ :=
    (mirrors_after_save hrules ∅ edits).1 "s" _ hsave (desk.save "s").2.folder rfl
  exact ⟨hnames, _, loaded, hsave, hload, hmirrors⟩

end Desk

end Worksheet
