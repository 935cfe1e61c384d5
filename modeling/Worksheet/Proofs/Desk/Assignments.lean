import Worksheet.Proofs.Desk.Rebuilding
import Worksheet.Proofs.Desk.Refusal

/-!
# Dependents in the order of assignment

The dependents of a cell are the cells whose formulas mention it, in the order in which
they were last assigned to (`Desk.listsByAssignment_after`).  This order decides between
cells that could as well be recomputed the other way round.

Time is kept by a log of the cells that have been assigned to, the latest last
(`Desk.logAfter`).  What is refused is not logged, and a sheet that is rebuilt or loaded
begins a log of its own, with the entries of its snapshot in the order of their names.

## Strategy

An edit takes its cell out of all lists and puts it at the end of the lists of what it now
mentions.  The other cells keep their order in the lists, and their last times in the log
as well; the cell itself has become the last in both (`Links.Listed.replacePrecedents`).
An edit that is refused leaves no trace in either.
-/

namespace Worksheet

/-! ## Last times -/

/-- Whether the last time that `t` stands in a log is before the last time that `u` does. -/
def LastBefore (log : List String) (t u : String) : Prop :=
  ∃ earlier later, log = earlier ++ later ∧ t ∈ earlier ∧ t ∉ later ∧ u ∈ later

variable {log : List String} {t u cell : String}

/-- A cell that is logged once more changes nothing between two cells of which it is not
the earlier one. -/
theorem LastBefore.append_singleton (hbefore : LastBefore log t u) (hne : t ≠ cell) :
    LastBefore (log ++ [cell]) t u := by
  obtain ⟨earlier, later, rfl, hearlier, hlater, hu⟩ := hbefore
  refine ⟨earlier, later ++ [cell], List.append_assoc .., hearlier, ?_,
    List.mem_append_left _ hu⟩
  rw [List.mem_append, List.mem_singleton]
  exact not_or.mpr ⟨hlater, hne⟩

theorem lastBefore_append_singleton_self (ht : t ∈ log) (hne : t ≠ cell) :
    LastBefore (log ++ [cell]) t cell :=
  ⟨log, [cell], rfl, ht, by simpa using hne, List.mem_singleton_self cell⟩

/-! ## Lists in the order of a log -/

namespace Links

variable {links : Links}

/-- Whether the lists of dependents hold logged cells only, in the order of the log. -/
structure Listed (links : Links) (log : List String) : Prop where
  mem_log : ∀ s, ∀ t ∈ links.dependents s, t ∈ log
  ordered : ∀ s, (links.dependents s).Pairwise (LastBefore log)

theorem listed_empty : (∅ : Links).Listed [] where
  mem_log := by simp
  ordered := by simp

/-- To replace the precedents of a cell is to make it the latest in every list that it is
in afterwards. -/
theorem Listed.replacePrecedents (hlisted : links.Listed log) (hlinks : links.Consistent)
    (cell : String) (sources : List String) :
    (links.replacePrecedents cell sources).Listed (log ++ [cell]) := by
  have hothers : ∀ s, ∀ t ∈ (links.dependents s).erase cell, t ≠ cell ∧ t ∈ log := by
    intro s t ht
    obtain ⟨hne, hmem⟩ := (hlinks.nodup_dependents s).mem_erase_iff.mp ht
    exact ⟨hne, hlisted.mem_log s t hmem⟩
  have hkept : ∀ s, ((links.dependents s).erase cell).Pairwise (LastBefore (log ++ [cell])) := by
    intro s
    have hsublist : ((links.dependents s).erase cell).Sublist (links.dependents s) :=
      List.erase_sublist
    refine ((hlisted.ordered s).sublist hsublist).imp_of_mem fun {t u} ht _ hbefore => ?_
    exact hbefore.append_singleton (hothers s t ht).1
  constructor
  · intro s t ht
    rw [List.mem_append, List.mem_singleton]
    rw [hlinks.dependents_replacePrecedents] at ht
    split at ht
    · rw [List.mem_append, List.mem_singleton] at ht
      exact ht.imp_left fun hother => (hothers s t hother).2
    · exact Or.inl (hothers s t ht).2
  · intro s
    rw [hlinks.dependents_replacePrecedents]
    split
    · refine List.pairwise_append.mpr ⟨hkept s, List.pairwise_singleton .., ?_⟩
      intro t ht last hlast
      rw [List.mem_singleton.mp hlast]
      obtain ⟨hne, hlog⟩ := hothers s t ht
      exact lastBefore_append_singleton_self hlog hne
    · exact hkept s

end Links

/-! ## Edits -/

namespace Sheet

variable {sheet : Sheet}

/-- An edit that is accepted is logged under the stored name. -/
theorem listed_edit (hlinks : sheet.links.Consistent) (hlisted : sheet.links.Listed log)
    {name : String} {content : Except ContentFault CellContent} {order : List String}
    (haccepted : (sheet.edit name content).result = .ok order) :
    (sheet.edit name content).sheet.links.Listed
      (log ++ (sheet.options.rules.resolve name).toList) := by
  rcases edit_cases hlinks name content with
    ⟨cause, hedit⟩ | ⟨stored, accepted, order, hname, -, -, hedit⟩
  · rw [hedit] at haccepted
    cases haccepted
  · rw [hedit, resolve_eq_ok_iff.mp hname]
    exact hlisted.replacePrecedents hlinks stored accepted.names

/-- Entries that are typed in are logged one by one. -/
theorem Sound.listed_foldlM_enterEntry (hsheet : sheet.Sound)
    (hlisted : sheet.links.Listed log) {entries : List (String × String)} {last : Sheet}
    (hfold : entries.foldlM enterEntry sheet = .ok last) :
    last.links.Listed (log ++ sheet.options.rules.targets entries) := by
  induction entries generalizing sheet log with
  | nil =>
      cases hfold
      rwa [NameRules.targets, List.filterMap_nil, List.append_nil]
  | cons entry entries ih =>
      rw [List.foldlM_cons] at hfold
      obtain ⟨next, hnext, hrest⟩ := bind_eq_ok_iff.mp hfold
      obtain ⟨order, hedit⟩ := enterEntry_eq_ok_iff.mp hnext
      have hentry : (sheet.enter entry.1 entry.2).sheet.links.Listed
          (log ++ (sheet.options.rules.resolve entry.1).toList) :=
        listed_edit hsheet.consistent hlisted (congrArg Edit.result hedit)
      rw [hedit] at hentry
      have hlast := ih (hsheet.of_enterEntry hnext) hentry hrest
      rwa [options_of_enterEntry hsheet.consistent hnext, List.append_assoc,
        ← NameRules.targets_cons] at hlast

/-- A sheet that is rebuilt has the log of its entries. -/
theorem listed_of_ofSnapshot {snapshot : Snapshot} {options : SheetOptions}
    (hof : ofSnapshot snapshot options = .ok sheet) :
    sheet.links.Listed (options.rules.targets snapshot.toList) := by
  obtain ⟨-, filled, hfold, hsheet⟩ := ofSnapshot_eq_ok_iff.mp hof
  have hfilled := (sound_empty options).listed_foldlM_enterEntry Links.listed_empty hfold
  rw [← hsheet]
  exact hfilled

/-- Whether the dependents of every cell are the cells with a formula that mentions it, in
the order of their last times in a log. -/
structure ListsByAssignment (sheet : Sheet) (log : List String) : Prop where
  mem_dependents_iff : ∀ s t, t ∈ sheet.links.dependents s ↔
    ∃ f, sheet.cells.content? t = some (.formula f) ∧ s ∈ f.names
  mem_log : ∀ s, ∀ t ∈ sheet.links.dependents s, t ∈ log
  ordered : ∀ s, (sheet.links.dependents s).Pairwise (LastBefore log)

theorem Linked.listsByAssignment (hlinked : sheet.Linked) (hlisted : sheet.links.Listed log) :
    sheet.ListsByAssignment log where
  mem_dependents_iff s t := by
    refine hlinked.leads_iff.trans (CellTable.mem_mentions_iff.trans ⟨?_, ?_⟩)
    · rintro ⟨content, hcontent, hname⟩
      obtain ⟨f, rfl, hname⟩ := CellContent.mem_names_iff.mp hname
      exact ⟨f, hcontent, hname⟩
    · rintro ⟨f, hcontent, hname⟩
      exact ⟨.formula f, hcontent, hname⟩
  mem_log := hlisted.mem_log
  ordered := hlisted.ordered

end Sheet

/-! ## Histories -/

/-- The snapshot in a file. -/
def Folder.snapshot? (folder : Folder) (file : String) : Option Snapshot :=
  (folder.readText file).toOption.bind Snapshot.read?

namespace Desk

/-- The log of the sheet on a desk after an operation that has been accepted. -/
def logAccepted (desk : Desk) (log : List String) : Operation → List String
  | .enter name _ => log ++ (desk.sheet.options.rules.resolve name).toList
  | .assign name _ => log ++ (desk.sheet.options.rules.resolve name).toList
  | .rebuild snapshot options => options.rules.targets snapshot.toList
  | .load file options =>
      match desk.folder.snapshot? file with
      | some snapshot => options.rules.targets snapshot.toList
      | none => log
  | .save _ => log
  | .saveAgain => log
  | .exchange _ => log

/-- The log after one operation.  What is refused is not logged. -/
def logNext (desk : Desk) (log : List String) (operation : Operation) : List String :=
  if (desk.perform operation).1.isOk then desk.logAccepted log operation else log

/-- The log of the sheet on a desk after some operations. -/
def logAfter (desk : Desk) (log : List String) : List Operation → List String
  | [] => log
  | operation :: operations =>
      (desk.perform operation).2.logAfter (desk.logNext log operation) operations

variable {desk : Desk}

theorem listed_load {file : String} {options : SheetOptions} {sheet : Sheet}
    (hload : Sheet.load desk.folder file options = .ok sheet) :
    sheet.links.Listed (desk.logAccepted log (.load file options)) := by
  obtain ⟨source, snapshot, rebuilt, hsource, hread, hof, hsheet⟩ := Sheet.rebuilt_of_load hload
  have hsnapshot : desk.folder.snapshot? file = some snapshot := by
    rw [Folder.snapshot?, hsource]
    exact hread
  have hrebuilt := Sheet.listed_of_ofSnapshot hof
  rw [logAccepted, hsnapshot, ← hsheet]
  exact hrebuilt

theorem listed_save (hlisted : desk.sheet.links.Listed log) (file : String) :
    (desk.save file).2.sheet.links.Listed log := by
  rcases desk.save_cases file with ⟨fault, hsave⟩ | ⟨folder, hsave⟩
  · rw [hsave]
    exact hlisted
  · rw [hsave]
    exact hlisted

/-- An operation that is accepted keeps the lists in the order of the log. -/
theorem listed_perform_of_ok (hdesk : desk.sheet.Sound) (hlisted : desk.sheet.links.Listed log)
    {operation : Operation} {reply : Reply} (hreply : (desk.perform operation).1 = .ok reply) :
    (desk.perform operation).2.sheet.links.Listed (desk.logAccepted log operation) := by
  cases operation with
  | enter name literal =>
      obtain ⟨order, horder, -⟩ := map_eq_ok_iff.mp hreply
      exact Sheet.listed_edit hdesk.consistent hlisted horder
  | assign name content =>
      obtain ⟨order, horder, -⟩ := map_eq_ok_iff.mp hreply
      exact Sheet.listed_edit hdesk.consistent hlisted horder
  | rebuild snapshot options => exact Sheet.listed_of_ofSnapshot (sheet_of_replace hreply)
  | load file options => exact listed_load (sheet_of_replace hreply)
  | save file => exact listed_save hlisted file
  | saveAgain =>
      change desk.saveAgain.2.sheet.links.Listed log
      rcases desk.saveAgain_cases with ⟨-, hagain⟩ | ⟨file, -, hagain⟩
      · rw [hagain]
        exact hlisted
      · rw [hagain]
        exact listed_save hlisted file
  | exchange folder => exact hlisted

theorem listed_perform (hdesk : desk.sheet.Sound) (hlisted : desk.sheet.links.Listed log)
    (operation : Operation) :
    (desk.perform operation).2.sheet.links.Listed (desk.logNext log operation) := by
  unfold logNext
  cases hreply : (desk.perform operation).1 with
  | error cause =>
      rw [perform_of_error hdesk.consistent hreply]
      exact hlisted
  | ok reply => exact listed_perform_of_ok hdesk hlisted hreply

/-- After every history, the dependents of every cell are the cells whose formulas mention
it, in the order in which they were last assigned to. -/
theorem listsByAssignment_after (options : SheetOptions) (folder : Folder)
    (history : List Operation) :
    ((opened options folder).after history).sheet.ListsByAssignment
      ((opened options folder).logAfter [] history) := by
  have hkeep : ∀ (desk : Desk) (log : List String), desk.sheet.Sound →
      desk.sheet.links.Listed log →
        (desk.after history).sheet.links.Listed (desk.logAfter log history) := by
    induction history with
    | nil => exact fun _ _ _ hlisted => hlisted
    | cons operation history ih =>
        intro desk log hdesk hlisted
        exact ih _ _ (sound_perform hdesk operation) (listed_perform hdesk hlisted operation)
  have hlisted := hkeep (opened options folder) [] (Sheet.sound_empty options) Links.listed_empty
  exact (sound_after options folder history).toLinked.listsByAssignment hlisted

/-- `B` is assigned to once more and gets behind `C`, which keeps its place when a circle is
refused. -/
example : ((opened {} ∅).after [.enter "B" "=A", .enter "C" "=A", .enter "B" "=2*A",
    .enter "C" "=A+C"]).sheet.links.dependents "A" = ["C", "B"] := by decide +kernel

end Desk

end Worksheet
