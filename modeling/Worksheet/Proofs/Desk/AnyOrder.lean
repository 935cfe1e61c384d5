import Worksheet.Proofs.Desk.Storage

/-!
# Entries in any order

Whether a sheet can be rebuilt from a snapshot depends on what its entries say and not on
the order in which they are typed in.  If no two of them are for the same cell, they are
accepted if and only if every name resolves, every literal can be read and the formulas
run in no circle (`NameRules.CanEnter`).  This holds of every order of the entries, and so
does the sheet that comes out, apart from the order of its links
(`Desk.rebuilds_in_any_order`).

## Strategy

Entries for different cells do not overwrite each other, so after all of them the contents
are what each of them says (`Sheet.Sound.shows_of_foldlM`).  A circle of the entries would
then be one of a sheet.  The other way round the entries are put together as a table before
the first of them is typed in (`CellTable.exists_table`), and a table without circles can be
typed in from any side (`Sheet.Sound.exists_foldlM_enterEntry`).
-/

namespace Worksheet

open Relation

/-! ## What entries say -/

namespace NameRules

/-- Whether one of the entries gives `cell` a formula that mentions `mentioned`. -/
def EntryMentions (rules : NameRules) (entries : List (String × String))
    (mentioned cell : String) : Prop :=
  ∃ entry ∈ entries, rules.resolve entry.1 = some cell ∧
    ∃ f, CellContent.enter rules entry.2 = .ok (.formula f) ∧ mentioned ∈ f.names

/-- Whether there is nothing in some entries, taken together, that a sheet refuses. -/
structure CanEnter (rules : NameRules) (entries : List (String × String)) : Prop where
  resolves : ∀ entry ∈ entries, ∃ stored, rules.resolve entry.1 = some stored
  reads : ∀ entry ∈ entries, ∃ content, CellContent.enter rules entry.2 = .ok content
  acyclic : ∀ cell, ¬ TransGen (rules.EntryMentions entries) cell cell

variable {rules : NameRules} {entries others : List (String × String)}

theorem EntryMentions.of_subset (hsubset : entries ⊆ others) {mentioned cell : String}
    (hmention : rules.EntryMentions entries mentioned cell) :
    rules.EntryMentions others mentioned cell := by
  obtain ⟨entry, hentry, hsays⟩ := hmention
  exact ⟨entry, hsubset hentry, hsays⟩

theorem CanEnter.of_subset (henter : rules.CanEnter others) (hsubset : entries ⊆ others) :
    rules.CanEnter entries where
  resolves entry hentry := henter.resolves entry (hsubset hentry)
  reads entry hentry := henter.reads entry (hsubset hentry)
  acyclic cell hcircle := by
    have hmono : rules.EntryMentions entries ≤ rules.EntryMentions others := by
      intro mentioned cell hmention
      exact hmention.of_subset hsubset
    exact henter.acyclic cell (TransGen.mono hmono cell cell hcircle)

/-- What can be entered can be entered in any order. -/
theorem canEnter_congr_of_perm (hperm : entries.Perm others) :
    rules.CanEnter entries ↔ rules.CanEnter others :=
  ⟨fun henter => henter.of_subset hperm.symm.subset, fun henter => henter.of_subset hperm.subset⟩

end NameRules

/-! ## Tables that show entries -/

namespace CellTable

variable {first second : CellTable} {rules : NameRules} {entries : List (String × String)}

/-- What entries mention is mentioned in every table that shows them. -/
theorem mentionedBy_of_entryMentions (hshows : ∀ entry ∈ entries, first.Shows rules entry)
    {mentioned cell : String} (hmention : rules.EntryMentions entries mentioned cell) :
    first.MentionedBy mentioned cell := by
  obtain ⟨entry, hentry, hcell, f, hformula, hname⟩ := hmention
  obtain ⟨stored, content, hstored, hcontent, hholds⟩ := hshows entry hentry
  cases hcell.symm.trans hstored
  cases hformula.symm.trans hcontent
  exact mem_mentions_iff.mpr ⟨.formula f, hholds, hname⟩

/-- Entries for different cells can be put together as a table, in which nothing is
mentioned but what they mention. -/
theorem exists_table (hresolves : ∀ entry ∈ entries, ∃ stored, rules.resolve entry.1 = some stored)
    (hreads : ∀ entry ∈ entries, ∃ content, CellContent.enter rules entry.2 = .ok content)
    (hdistinct : (rules.targets entries).Nodup) :
    ∃ table : CellTable, (∀ entry ∈ entries, table.Shows rules entry) ∧
      ∀ mentioned cell, table.MentionedBy mentioned cell →
        rules.EntryMentions entries mentioned cell := by
  induction entries with
  | nil =>
      refine ⟨∅, List.forall_mem_nil _, fun mentioned cell hmention => ?_⟩
      obtain ⟨content, hcontent, -⟩ := mem_mentions_iff.mp hmention
      cases hcontent.symm.trans (content?_empty cell)
  | cons entry entries ih =>
      obtain ⟨⟨stored, hstored⟩, hresolves⟩ := List.forall_mem_cons.mp hresolves
      obtain ⟨⟨content, hcontent⟩, hreads⟩ := List.forall_mem_cons.mp hreads
      rw [NameRules.targets_cons, hstored] at hdistinct
      obtain ⟨hfresh, hdistinct⟩ := List.nodup_cons.mp hdistinct
      obtain ⟨table, hshows, hmentions⟩ := ih hresolves hreads hdistinct
      refine ⟨(table.set stored content).2, List.forall_mem_cons.mpr ⟨?_, ?_⟩, ?_⟩
      · refine ⟨stored, content, hstored, hcontent, ?_⟩
        rw [content?_set, if_pos rfl]
      · intro other hother
        obtain ⟨name, found, hname, hfound, hholds⟩ := hshows other hother
        have hne : name ≠ stored := by
          rintro rfl
          exact hfresh (NameRules.mem_targets.mpr ⟨other, hother, hname⟩)
        refine ⟨name, found, hname, hfound, ?_⟩
        rw [content?_set, if_neg hne]
        exact hholds
      · intro mentioned cell hmention
        rw [MentionedBy, mentions_set] at hmention
        split at hmention
        · rename_i hcell
          obtain ⟨f, rfl, hname⟩ := CellContent.mem_names_iff.mp hmention
          exact ⟨entry, List.mem_cons_self .., hcell ▸ hstored, f, hcontent, hname⟩
        · exact (hmentions mentioned cell hmention).of_subset (List.subset_cons_self ..)

end CellTable

namespace Sheet

variable {sheet last : Sheet} {entries others : List (String × String)}

/-- Entries for different cells are accepted, in the order in which they stand, if and only
if there is nothing in them that is refused. -/
theorem exists_foldlM_enterEntry_iff {options : SheetOptions}
    (hdistinct : (options.rules.targets entries).Nodup) :
    (∃ last, entries.foldlM enterEntry (empty options) = .ok last) ↔
      options.rules.CanEnter entries := by
  constructor
  · rintro ⟨last, hfold⟩
    have hlast := (sound_empty options).of_foldlM hfold
    obtain ⟨hshows, -⟩ := (sound_empty options).shows_of_foldlM hdistinct hfold
    refine ⟨fun entry hentry => ?_, fun entry hentry => ?_, fun cell hcircle => ?_⟩
    · obtain ⟨stored, -, hstored, -⟩ := hshows entry hentry
      exact ⟨stored, hstored⟩
    · obtain ⟨-, content, -, hcontent, -⟩ := hshows entry hentry
      exact ⟨content, hcontent⟩
    · have hmono : options.rules.EntryMentions entries ≤ last.links.Leads := by
        intro mentioned cell hmention
        rw [← hlast.toLinked.mentionedBy_eq]
        exact CellTable.mentionedBy_of_entryMentions hshows hmention
      exact hlast.acyclic cell (TransGen.mono hmono cell cell hcircle)
  · intro henter
    obtain ⟨table, hshows, hmentions⟩ :=
      CellTable.exists_table henter.resolves henter.reads hdistinct
    have hacyclic : ∀ name, ¬ TransGen table.MentionedBy name name := by
      intro name hcircle
      exact henter.acyclic name (TransGen.mono hmentions name name hcircle)
    exact (sound_empty options).exists_foldlM_enterEntry (CellTable.within_empty table) hacyclic
      hshows

/-- Whatever the order in which entries for different cells have been typed in, the sheets
are alike. -/
theorem mirrors_of_perm {options : SheetOptions} {other : Sheet}
    (hdistinct : (options.rules.targets others).Nodup) (hperm : entries.Perm others)
    (hlast : entries.foldlM enterEntry (empty options) = .ok last)
    (hother : others.foldlM enterEntry (empty options) = .ok other) : last.Mirrors other := by
  have hempty := sound_empty options
  have htargets : (options.rules.targets entries).Perm (options.rules.targets others) :=
    hperm.filterMap _
  obtain ⟨hshows, helsewhere⟩ := hempty.shows_of_foldlM (htargets.nodup_iff.mpr hdistinct) hlast
  obtain ⟨hshows', helsewhere'⟩ := hempty.shows_of_foldlM hdistinct hother
  apply (hempty.of_foldlM hlast).mirrors (hempty.of_foldlM hother)
  apply CellTable.eq_of_shows (fun entry hentry => hshows entry (hperm.mem_iff.mpr hentry)) hshows'
  intro name hname
  rw [helsewhere name (mt htargets.mem_iff.mp hname), helsewhere' name hname]

end Sheet

/-! ## At a desk -/

namespace Desk

/-- Typing in some entries, one after the other. -/
def typing (entries : List (String × String)) : List Operation :=
  entries.map fun entry => .enter entry.1 entry.2

variable {desk : Desk} {entry : String × String} {entries : List (String × String)}

theorem perform_enter_of_enterEntry {next : Sheet}
    (hentry : desk.sheet.enterEntry entry = .ok next) :
    ∃ order, desk.perform (.enter entry.1 entry.2) =
      (.ok (.order order), { desk with sheet := next }) := by
  obtain ⟨order, hedit⟩ := Sheet.enterEntry_eq_ok_iff.mp hentry
  refine ⟨order, ?_⟩
  change desk.accept (desk.sheet.enter entry.1 entry.2) = _
  rw [hedit]
  rfl

theorem exists_enterEntry_of_isOk
    (haccepted : (desk.perform (.enter entry.1 entry.2)).1.isOk = true) :
    ∃ next, desk.sheet.enterEntry entry = .ok next := by
  change ((desk.sheet.enter entry.1 entry.2).result.map Reply.order).isOk = true at haccepted
  cases hedit : desk.sheet.enter entry.1 entry.2 with
  | mk result next =>
      rw [hedit] at haccepted
      cases result with
      | error cause => cases haccepted
      | ok order => exact ⟨next, Sheet.enterEntry_eq_ok_iff.mpr ⟨order, hedit⟩⟩

/-- Entries are all accepted at a desk if and only if they are accepted as those of a
snapshot. -/
theorem accepts_typing_iff :
    (∀ reply ∈ (desk.run (typing entries)).1, reply.isOk = true) ↔
      ∃ last, entries.foldlM Sheet.enterEntry desk.sheet = .ok last := by
  induction entries generalizing desk with
  | nil => exact iff_of_true (List.forall_mem_nil _) ⟨desk.sheet, rfl⟩
  | cons entry entries ih =>
      rw [typing, List.map_cons, run_cons, List.forall_mem_cons, List.foldlM_cons]
      constructor
      · rintro ⟨haccepted, hrest⟩
        obtain ⟨next, hnext⟩ := exists_enterEntry_of_isOk haccepted
        obtain ⟨order, hperform⟩ := perform_enter_of_enterEntry hnext
        rw [hperform] at hrest
        rw [hnext]
        exact ih.mp hrest
      · rintro ⟨last, hlast⟩
        obtain ⟨next, hnext, hrest⟩ := bind_eq_ok_iff.mp hlast
        obtain ⟨order, hperform⟩ := perform_enter_of_enterEntry hnext
        rw [hperform]
        exact ⟨rfl, ih.mpr ⟨last, hrest⟩⟩

theorem sheet_after_typing {last : Sheet}
    (hfold : entries.foldlM Sheet.enterEntry desk.sheet = .ok last) :
    (desk.after (typing entries)).sheet = last := by
  induction entries generalizing desk with
  | nil => exact Except.ok.inj hfold
  | cons entry entries ih =>
      rw [List.foldlM_cons] at hfold
      obtain ⟨next, hnext, hrest⟩ := bind_eq_ok_iff.mp hfold
      obtain ⟨order, hperform⟩ := perform_enter_of_enterEntry hnext
      rw [typing, List.map_cons, after_cons, hperform]
      exact ih hrest

/-- Whether a sheet can be rebuilt from entries for different cells, and which sheet comes
out, does not depend on their order.  Typing them in at a desk one after the other is
accepted throughout in the same cases. -/
theorem rebuilds_in_any_order {snapshot : Snapshot} {options : SheetOptions}
    (hversion : snapshot.version = options.version)
    (hdistinct : (options.rules.targets snapshot.toList).Nodup) :
    ((∃ sheet, Sheet.ofSnapshot snapshot options = .ok sheet) ↔
      options.rules.CanEnter snapshot.toList) ∧
    ∀ (entries : List (String × String)) (folder : Folder), entries.Perm snapshot.toList →
      ((∀ reply ∈ ((opened options folder).run (typing entries)).1, reply.isOk = true) ↔
        options.rules.CanEnter snapshot.toList) ∧
      ∀ sheet, Sheet.ofSnapshot snapshot options = .ok sheet →
        ((opened options folder).after (typing entries)).sheet.Mirrors sheet := by
  have hrebuilds : (∃ sheet, Sheet.ofSnapshot snapshot options = .ok sheet) ↔
      ∃ filled, snapshot.toList.foldlM Sheet.enterEntry (Sheet.empty options) = .ok filled := by
    constructor
    · rintro ⟨sheet, hof⟩
      obtain ⟨-, filled, hfilled, -⟩ := Sheet.ofSnapshot_eq_ok_iff.mp hof
      exact ⟨filled, hfilled⟩
    · rintro ⟨filled, hfilled⟩
      exact ⟨_, Sheet.ofSnapshot_eq_ok_iff.mpr ⟨hversion, filled, hfilled, rfl⟩⟩
  refine ⟨hrebuilds.trans (Sheet.exists_foldlM_enterEntry_iff hdistinct), ?_⟩
  intro entries folder hperm
  have htargets : (options.rules.targets entries).Nodup :=
    (hperm.filterMap _).nodup_iff.mpr hdistinct
  have hcases : options.rules.CanEnter snapshot.toList ↔
      ∃ last, entries.foldlM Sheet.enterEntry (Sheet.empty options) = .ok last := by
    rw [Sheet.exists_foldlM_enterEntry_iff htargets]
    exact NameRules.canEnter_congr_of_perm hperm.symm
  refine ⟨accepts_typing_iff.trans hcases.symm, fun sheet hof => ?_⟩
  obtain ⟨-, filled, hfilled, hsheet⟩ := Sheet.ofSnapshot_eq_ok_iff.mp hof
  obtain ⟨last, hlast⟩ :=
    hcases.mp ((Sheet.exists_foldlM_enterEntry_iff hdistinct).mp ⟨filled, hfilled⟩)
  have hmirrors := Sheet.mirrors_of_perm hdistinct hperm hlast hfilled
  rw [sheet_after_typing hlast, ← hsheet]
  exact ⟨hmirrors.names_eq, hmirrors.cells_eq, hmirrors.values_eq, hmirrors.pairs_eq⟩

/-- In the snapshot every formula comes before the cells that it mentions.  Backwards, no
cell is ever recomputed. -/
theorem rebuilds_in_any_order_backwards :
    let options : SheetOptions := { rules := .stock .upper .all, version := "1" }
    let snapshot : Snapshot :=
      { version := "1", cells := .ofList [("c1", "3"), ("b1", "=C1*2"), ("a1", "=b1-C1")] }
    let desk := (opened options ∅).after (typing snapshot.toList.reverse)
    snapshot.toList = [("a1", "=b1-C1"), ("b1", "=C1*2"), ("c1", "3")] ∧
      ∃ sheet, Sheet.ofSnapshot snapshot options = .ok sheet ∧ desk.sheet.Mirrors sheet := by
  intro options snapshot desk
  have hentries : snapshot.toList = [("a1", "=b1-C1"), ("b1", "=C1*2"), ("c1", "3")] := by
    decide +kernel
  have hdistinct : (options.rules.targets snapshot.toList).Nodup := by decide +kernel
  have haccepted : ∀ reply ∈ ((opened options ∅).run (typing snapshot.toList.reverse)).1,
      reply.isOk = true := by decide +kernel
  obtain ⟨hrebuilds, horders⟩ := @rebuilds_in_any_order snapshot options rfl hdistinct
  obtain ⟨haccepts, hmirrors⟩ := horders _ ∅ snapshot.toList.reverse_perm
  obtain ⟨sheet, hsheet⟩ := hrebuilds.mpr (haccepts.mp haccepted)
  exact ⟨hentries, sheet, hsheet, hmirrors sheet hsheet⟩

end Desk

end Worksheet
