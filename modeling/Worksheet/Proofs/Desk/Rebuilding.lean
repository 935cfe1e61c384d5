import Worksheet.Proofs.Cell.Literal
import Worksheet.Proofs.Desk.Acceptance

/-!
# Typing the entries of a table in

A table of cells in which no cell uses itself can be typed in entry by entry, in any order
(`Sheet.Sound.exists_foldlM_enterEntry`).  A formula may come before the cells that it
mentions: they count as empty until they are typed in, and are recomputed then.

After entries for different cells the sheet holds what the entries say
(`Sheet.Sound.shows_of_foldlM`), so which sheet it is does not depend on their order either
(`CellTable.eq_of_shows`).

## Strategy

At every moment the sheet holds a part of the table, so a circle through the cell that is
typed in next would be a circle of the table.  By `Sheet.Linked.decides_edit` the cell is
then accepted, and the sheet holds one cell more of the table.
-/

namespace Worksheet

open Relation

/-- The cells that some entries are for, entry by entry. -/
def NameRules.targets (rules : NameRules) (entries : List (String × String)) : List String :=
  entries.filterMap fun entry => rules.resolve entry.1

theorem NameRules.targets_cons (rules : NameRules) (entry : String × String)
    (entries : List (String × String)) :
    rules.targets (entry :: entries) = (rules.resolve entry.1).toList ++ rules.targets entries := by
  unfold targets
  cases hresolve : rules.resolve entry.1 with
  | none => exact List.filterMap_cons_none hresolve
  | some stored => exact List.filterMap_cons_some hresolve

theorem NameRules.mem_targets {rules : NameRules} {entries : List (String × String)}
    {name : String} :
    name ∈ rules.targets entries ↔ ∃ entry ∈ entries, rules.resolve entry.1 = some name :=
  List.mem_filterMap

/-! ## Tables and what entries say -/

namespace CellTable

/-- Whether all that a table holds is held by another. -/
def Within (part whole : CellTable) : Prop :=
  ∀ name content, part.content? name = some content → whole.content? name = some content

/-- Whether a table holds what an entry says, once the name and the literal are read under
some rules.  An entry with the empty text says that the cell is empty. -/
def Shows (table : CellTable) (rules : NameRules) (entry : String × String) : Prop :=
  ∃ stored content, rules.resolve entry.1 = some stored ∧
    CellContent.enter rules entry.2 = .ok content ∧
    table.content? stored = if content.isEmpty then none else some content

variable {part whole : CellTable}

theorem within_empty (whole : CellTable) : Within ∅ whole := fun name content hcontent => by
  rw [content?_empty] at hcontent
  cases hcontent

theorem Within.mentionedBy (hwithin : part.Within whole) {mentioned cell : String}
    (hmention : part.MentionedBy mentioned cell) : whole.MentionedBy mentioned cell := by
  obtain ⟨content, hcontent, hname⟩ := mem_mentions_iff.mp hmention
  exact mem_mentions_iff.mpr ⟨content, hwithin cell content hcontent, hname⟩

variable {first second : CellTable} {rules : NameRules} {entries : List (String × String)}

theorem Shows.content?_eq {entry : String × String} (hfirst : first.Shows rules entry)
    (hsecond : second.Shows rules entry) {name : String}
    (hname : rules.resolve entry.1 = some name) : first.content? name = second.content? name := by
  obtain ⟨stored, content, hstored, hcontent, hshows⟩ := hfirst
  obtain ⟨_, _, hstored', hcontent', hshows'⟩ := hsecond
  cases hname.symm.trans hstored
  cases hname.symm.trans hstored'
  cases hcontent.symm.trans hcontent'
  exact hshows.trans hshows'.symm

/-- Tables that show the same entries and agree everywhere else are the same. -/
theorem eq_of_shows (hfirst : ∀ entry ∈ entries, first.Shows rules entry)
    (hsecond : ∀ entry ∈ entries, second.Shows rules entry)
    (helsewhere : ∀ name, name ∉ rules.targets entries →
      first.content? name = second.content? name) : first = second := by
  apply ext
  intro name
  by_cases hname : name ∈ rules.targets entries
  · obtain ⟨entry, hentry, hresolve⟩ := NameRules.mem_targets.mp hname
    exact (hfirst entry hentry).content?_eq (hsecond entry hentry) hresolve
  · exact helsewhere name hname

end CellTable

namespace Sheet

variable {sheet : Sheet} {whole : CellTable}

/-! ## One entry -/

theorem options_edit (hlinks : sheet.links.Consistent) (name : String)
    (content : Except ContentFault CellContent) :
    (sheet.edit name content).sheet.options = sheet.options := by
  rcases edit_cases hlinks name content with
    ⟨cause, hedit⟩ | ⟨stored, accepted, order, -, -, -, hedit⟩
  · rw [hedit]
  · rw [hedit]
    rfl

theorem options_of_enterEntry (hlinks : sheet.links.Consistent) {next : Sheet}
    {entry : String × String} (hentry : sheet.enterEntry entry = .ok next) :
    next.options = sheet.options := by
  obtain ⟨order, hedit⟩ := enterEntry_eq_ok_iff.mp hentry
  have hoptions : (sheet.enter entry.1 entry.2).sheet.options = sheet.options :=
    options_edit hlinks entry.1 _
  rwa [hedit] at hoptions

/-- What is typed into a part of a table on the way to the whole closes no circle. -/
theorem not_closesCircle_of_within (hwithin : sheet.cells.Within whole)
    (hacyclic : ∀ name, ¬ TransGen whole.MentionedBy name name) {stored : String}
    {content : CellContent}
    (hcontent : whole.content? stored = if content.isEmpty then none else some content) :
    ¬ sheet.ClosesCircle stored content := by
  rintro ⟨mentioned, hmentioned, hcircle⟩
  cases hempty : content.isEmpty with
  | true =>
      rw [CellContent.names_of_isEmpty hempty] at hmentioned
      cases hmentioned
  | false =>
      rw [hempty] at hcontent
      have hlast : whole.MentionedBy mentioned stored :=
        CellTable.mem_mentions_iff.mpr ⟨content, hcontent, hmentioned⟩
      rcases hcircle with rfl | hpath
      · exact hacyclic mentioned (TransGen.single hlast)
      · have hstep : (fun used cell => cell ≠ stored ∧ sheet.cells.MentionedBy used cell) ≤
            whole.MentionedBy := fun _ _ hmention => hwithin.mentionedBy hmention.2
        exact hacyclic stored ((TransGen.mono hstep stored mentioned hpath).tail hlast)

/-- A cell that has been typed in holds what the entry says, and the other cells hold what
they held. -/
theorem Sound.shows_of_enterEntry (hsheet : sheet.Sound) {next : Sheet} {entry : String × String}
    (hentry : sheet.enterEntry entry = .ok next) :
    next.cells.Shows sheet.options.rules entry ∧
      ∀ name, sheet.options.rules.resolve entry.1 ≠ some name →
        next.cells.content? name = sheet.cells.content? name := by
  obtain ⟨order, hedit⟩ := enterEntry_eq_ok_iff.mp hentry
  rcases edit_cases hsheet.consistent entry.1
    (CellContent.enter sheet.options.rules entry.2) with
    ⟨cause, hrefused⟩ | ⟨stored, content, _, hname, hcontent, -, haccepted⟩
  · cases hedit.symm.trans hrefused
  · cases hedit.symm.trans haccepted
    have hresolve := resolve_eq_ok_iff.mp hname
    refine ⟨⟨stored, content, hresolve, hcontent, ?_⟩, fun name hne => ?_⟩
    · exact (sheet.cells.content?_set stored stored content).trans (if_pos rfl)
    · refine (sheet.cells.content?_set stored name content).trans (if_neg ?_)
      rintro rfl
      exact hne hresolve

/-- An entry of a table is accepted by a sheet that holds a part of the table. -/
theorem Sound.exists_enterEntry (hsheet : sheet.Sound) (hwithin : sheet.cells.Within whole)
    (hacyclic : ∀ name, ¬ TransGen whole.MentionedBy name name) {entry : String × String}
    (hentry : whole.Shows sheet.options.rules entry) :
    ∃ next, sheet.enterEntry entry = .ok next ∧ next.cells.Within whole := by
  have ⟨stored, content, hname, henter, hcontent⟩ := hentry
  have hcircle := not_closesCircle_of_within hwithin hacyclic hcontent
  have hdecides := hsheet.toLinked.decides_edit (resolve_eq_ok_iff.mpr hname) henter
  obtain ⟨order, hresult, -⟩ := hdecides.accepted hcircle
  change (sheet.enter entry.1 entry.2).result = .ok order at hresult
  have haccepted : sheet.enterEntry entry = .ok (sheet.enter entry.1 entry.2).sheet :=
    enterEntry_eq_ok_iff.mpr ⟨order, by rw [← hresult]⟩
  obtain ⟨hshows, helsewhere⟩ := hsheet.shows_of_enterEntry haccepted
  refine ⟨_, haccepted, fun name found hfound => ?_⟩
  by_cases htarget : sheet.options.rules.resolve entry.1 = some name
  · exact (hentry.content?_eq hshows htarget).trans hfound
  · rw [helsewhere name htarget] at hfound
    exact hwithin name found hfound

/-! ## All entries -/

variable {last : Sheet} {entries : List (String × String)}

theorem Sound.of_foldlM (hsheet : sheet.Sound)
    (hfold : entries.foldlM enterEntry sheet = .ok last) : last.Sound :=
  foldlM_keeps (fun _ _ _ hsound hentry => hsound.of_enterEntry hentry) hsheet hfold

/-- All entries of a table are accepted one after the other. -/
theorem Sound.exists_foldlM_enterEntry (hsheet : sheet.Sound)
    (hwithin : sheet.cells.Within whole)
    (hacyclic : ∀ name, ¬ TransGen whole.MentionedBy name name)
    (hentries : ∀ entry ∈ entries, whole.Shows sheet.options.rules entry) :
    ∃ last, entries.foldlM enterEntry sheet = .ok last := by
  induction entries generalizing sheet with
  | nil => exact ⟨sheet, rfl⟩
  | cons entry entries ih =>
      obtain ⟨hentry, hrest⟩ := List.forall_mem_cons.mp hentries
      obtain ⟨next, hnext, hpart⟩ := hsheet.exists_enterEntry hwithin hacyclic hentry
      rw [← options_of_enterEntry hsheet.consistent hnext] at hrest
      obtain ⟨last, hlast⟩ := ih (hsheet.of_enterEntry hnext) hpart hrest
      exact ⟨last, bind_eq_ok_iff.mpr ⟨next, hnext, hlast⟩⟩

/-- After entries for different cells have been typed in, the cells hold what the entries
say.  The others hold what they held. -/
theorem Sound.shows_of_foldlM (hsheet : sheet.Sound)
    (hdistinct : (sheet.options.rules.targets entries).Nodup)
    (hfold : entries.foldlM enterEntry sheet = .ok last) :
    (∀ entry ∈ entries, last.cells.Shows sheet.options.rules entry) ∧
      ∀ name, name ∉ sheet.options.rules.targets entries →
        last.cells.content? name = sheet.cells.content? name := by
  induction entries generalizing sheet with
  | nil =>
      cases hfold
      exact ⟨List.forall_mem_nil _, fun _ _ => rfl⟩
  | cons entry entries ih =>
      rw [List.foldlM_cons] at hfold
      obtain ⟨next, hnext, hrest⟩ := bind_eq_ok_iff.mp hfold
      have hoptions := options_of_enterEntry hsheet.consistent hnext
      obtain ⟨⟨stored, content, hstored, hcontent, hholds⟩, hothers⟩ :=
        hsheet.shows_of_enterEntry hnext
      rw [NameRules.targets_cons, hstored] at hdistinct ⊢
      obtain ⟨hfresh, hdistinct⟩ := List.nodup_cons.mp hdistinct
      obtain ⟨hshows, helsewhere⟩ := ih (hsheet.of_enterEntry hnext) (hoptions ▸ hdistinct) hrest
      rw [hoptions] at hshows helsewhere
      refine ⟨List.forall_mem_cons.mpr ⟨?_, hshows⟩, fun name hname => ?_⟩
      · -- No later entry is for the cell, so it still holds what this one has put there.
        exact ⟨stored, content, hstored, hcontent, (helsewhere stored hfresh).trans hholds⟩
      · obtain ⟨hne, hname⟩ := not_or.mp (mt List.mem_cons.mpr hname)
        rw [helsewhere name hname]
        apply hothers
        rw [hstored]
        exact fun heq => hne (Option.some.inj heq).symm

end Sheet

end Worksheet
