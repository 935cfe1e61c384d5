import Worksheet.Proofs.Desk.Storage
import Worksheet.Proofs.Links.Sweep

/-!
# The version of a file

The version of a file can be asked for without the sheet being loaded.  The answer is the
version that loading compares with the one of the options, for all ways to write a snapshot but
one.  An array of a version and cells is loaded, and refused when it is asked for its version
(`Sheet.savedVersion_eq_ok_iff`).  A file that a sheet was saved to is never written like that,
so it always gives its version (`Desk.savedVersion_of_save`).

## Strategy

`Snapshot.ofValue?` and `Snapshot.versionOf?` look at the same value.  The cases of the former
in which a snapshot is found are those of the latter, except for the array of two
(`Snapshot.versionOf?_of_ofValue?`).  As for loading, no entry of a snapshot is refused for a
version (`Sheet.error_of_enterEntry`), so an error about versions can only come from the
comparison itself.
-/

namespace Worksheet

/-! ## In the text -/

namespace Snapshot

open Json (Value)

/-- Whether a value is an array of two. -/
def isPair : Value → Bool
  | .array [_, _] => true
  | _ => false

/-- Whether a text writes an array of two, as which a snapshot may be written with its version
first and its cells behind it. -/
def WritesPair (source : String) : Prop := (Value.read? source.toList).any isPair = true

instance (source : String) : Decidable (WritesPair source) := inferInstanceAs (Decidable (_ = true))

theorem versionOf?_of_ofValue? {value : Value} {snapshot : Snapshot}
    (hvalue : ofValue? value = some snapshot) (hpair : ¬ isPair value = true) :
    versionOf? value = some snapshot.version := by
  unfold ofValue? at hvalue
  split at hvalue
  · rename_i fields
    split at hvalue
    · rename_i hnamed
      split at hvalue
      · rename_i version hversion hcells
        obtain ⟨characters, hcharacters, rfl⟩ := Option.map_eq_some_iff.mp hvalue
        simp only [versionOf?, if_pos hnamed, hversion, hcharacters]
      · rename_i version cells hversion hcells
        obtain ⟨characters, hcharacters, hrest⟩ := Option.bind_eq_some_iff.mp hvalue
        obtain ⟨found, hfound, hsnapshot⟩ := Option.bind_eq_some_iff.mp hrest
        cases hsnapshot
        simp only [versionOf?, if_pos hnamed, hversion, hcharacters]
      · cases hvalue
    · cases hvalue
  · rename_i version
    obtain ⟨characters, hcharacters, rfl⟩ := Option.map_eq_some_iff.mp hvalue
    exact hcharacters
  · rename_i version cells
    exact absurd rfl hpair
  · cases hvalue

theorem readVersion?_of_read? {source : String} {snapshot : Snapshot}
    (hread : read? source = some snapshot) (hpair : ¬ WritesPair source) :
    readVersion? source = some snapshot.version := by
  obtain ⟨value, hvalue, hsnapshot⟩ := Option.bind_eq_some_iff.mp hread
  rw [WritesPair, hvalue] at hpair
  rw [readVersion?, hvalue]
  exact versionOf?_of_ofValue? hsnapshot hpair

theorem readVersion?_of_writesPair {source : String} (hpair : WritesPair source) :
    readVersion? source = none := by
  obtain ⟨value, hvalue, hvaluePair⟩ := (Option.any_eq_true ..).mp hpair
  rw [readVersion?, hvalue]
  unfold isPair at hvaluePair
  split at hvaluePair
  · rfl
  · cases hvaluePair

/-- The text of a snapshot is an object. -/
theorem not_writesPair_text (snapshot : Snapshot) : ¬ WritesPair snapshot.text := by
  rw [WritesPair, read?_value_of_writes snapshot.writes_toList_text]
  exact Bool.false_ne_true

end Snapshot

/-! ## In a file -/

namespace Sheet

theorem fileText_eq {folder : Folder} {file source : String}
    (htext : folder.readText file = .ok source) : fileText folder file = .ok source := by
  rw [fileText, htext]
  rfl

theorem savedVersion_eq {folder : Folder} {file source : String}
    (htext : folder.readText file = .ok source) :
    savedVersion folder file =
      match Snapshot.readVersion? source with
      | some version => .ok version
      | none => .error .notSnapshot := by
  rw [savedVersion, fileText_eq htext]
  rfl

theorem load_eq {folder : Folder} {file source : String} {snapshot : Snapshot}
    (htext : folder.readText file = .ok source) (hread : Snapshot.read? source = some snapshot)
    (options : SheetOptions) :
    load folder file options =
      (ofSnapshot snapshot options).map fun sheet => { sheet with file := some file } := by
  rw [load, fileText_eq htext]
  change ofText source options >>= _ = _
  rw [ofText, hread]
  rfl

/-! ### What a snapshot is refused for -/

/-- An edit is refused for its name, for its content or for a circle. -/
theorem error_of_edit {sheet : Sheet} {name : String} {content : Except ContentFault CellContent}
    {cause : SheetError} (hresult : (sheet.edit name content).result = .error cause) :
    cause = .invalidName name ∨ (∃ fault, cause = .invalidContent fault) ∨
      ∃ circle, cause = .circular circle := by
  unfold edit at hresult
  split at hresult
  · rename_i refused hresolve
    cases hresult
    unfold resolve at hresolve
    split at hresolve <;> cases hresolve
    exact Or.inl rfl
  · rename_i fault _
    cases hresult
    exact Or.inr (Or.inl ⟨fault, rfl⟩)
  · unfold place at hresult
    simp only at hresult
    split at hresult
    · cases hresult
    · rename_i circle _
      cases hresult
      exact Or.inr (Or.inr ⟨circle, rfl⟩)

/-- An entry is refused for the same, and its content is put down to it. -/
theorem error_of_enterEntry {sheet : Sheet} {entry : String × String} {cause : SheetError}
    (hentry : sheet.enterEntry entry = .error cause) :
    cause = .invalidName entry.1 ∨ (∃ fault, cause = .badEntry entry.1 fault) ∨
      ∃ circle, cause = .circular circle := by
  unfold enterEntry at hentry
  split at hentry
  · cases hentry
  · rename_i fault _ _
    cases hentry
    exact Or.inr (Or.inl ⟨fault, rfl⟩)
  · rename_i refused edited hcontent hedit
    cases hentry
    rcases error_of_edit (congrArg Edit.result hedit) with hname | ⟨fault, hfault⟩ | hcircle
    · exact Or.inl hname
    · exact absurd hfault (hcontent fault)
    · exact Or.inr (Or.inr hcircle)

theorem ofSnapshot_eq_versionMismatch_iff {snapshot : Snapshot} {options : SheetOptions}
    {expected found : String} :
    ofSnapshot snapshot options = .error (.versionMismatch expected found) ↔
      expected = options.version ∧ found = snapshot.version ∧ found ≠ expected := by
  unfold ofSnapshot
  by_cases hversion : snapshot.version = options.version
  · rw [if_pos hversion]
    refine iff_of_false (fun herror => ?_) ?_
    · rcases bind_eq_error_iff.mp herror with hfold | ⟨filled, -, hfilled⟩
      · obtain ⟨_, entry, _, sheet, -, -, hentry⟩ := foldlM_eq_error_iff.mp hfold
        rcases error_of_enterEntry hentry with hname | ⟨fault, hfault⟩ | ⟨circle, hcircle⟩
        · cases hname
        · cases hfault
        · cases hcircle
      · cases hfilled
    · rintro ⟨rfl, rfl, hne⟩
      exact hne hversion
  · rw [if_neg hversion]
    constructor
    · intro herror
      cases herror
      exact ⟨rfl, rfl, hversion⟩
    · rintro ⟨rfl, rfl, -⟩
      rfl

/-! ### The version that is compared -/

/-- Where a file holds a snapshot, loading compares the version of the snapshot with the one of the
options.  Asked for its version, the file gives the same one, unless it holds an array of two. -/
theorem savedVersion_eq_ok_iff {folder : Folder} {file source : String} {snapshot : Snapshot}
    (htext : folder.readText file = .ok source) (hread : Snapshot.read? source = some snapshot) :
    (savedVersion folder file = .ok snapshot.version ↔ ¬ Snapshot.WritesPair source) ∧
      (Snapshot.WritesPair source → savedVersion folder file = .error .notSnapshot) ∧
      ∀ options expected found,
        load folder file options = .error (.versionMismatch expected found) ↔
          expected = options.version ∧ found = snapshot.version ∧ found ≠ expected := by
  have hrefused : Snapshot.WritesPair source → savedVersion folder file = .error .notSnapshot := by
    intro hpair
    rw [savedVersion_eq htext, Snapshot.readVersion?_of_writesPair hpair]
  refine ⟨⟨fun hok hpair => ?_, fun hpair => ?_⟩, hrefused, fun options expected found => ?_⟩
  · rw [hrefused hpair] at hok
    cases hok
  · rw [savedVersion_eq htext, Snapshot.readVersion?_of_read? hread hpair]
  · rw [load_eq htext hread, ← ofSnapshot_eq_versionMismatch_iff]
    exact map_eq_error_iff

/-- An object with its version behind the cells and a field that is not known. -/
theorem savedVersion_eq_ok_of_object :
    let source := "\x7b\"cells\":\x7b\"A1\":[\"=B1\"]\x7d,\"more\":[null],\"version\":\"v\"\x7d"
    let folder : Folder := ⟨(∅ : Std.ExtTreeMap String ByteArray).insert "s" source.toUTF8⟩
    ∃ snapshot, folder.readText "s" = .ok source ∧ Snapshot.read? source = some snapshot ∧
      savedVersion folder "s" = .ok snapshot.version ∧
        load folder "s" { version := "w" } = .error (.versionMismatch "w" "v") := by
  intro source folder
  have htext : folder.readText "s" = .ok source := by decide +kernel
  have hversion : (Snapshot.read? source).map Snapshot.version = some "v" := by decide +kernel
  obtain ⟨snapshot, hread, hsnapshot⟩ := Option.map_eq_some_iff.mp hversion
  have hpair : ¬ Snapshot.WritesPair source := by decide +kernel
  obtain ⟨hsaved, -, hload⟩ := savedVersion_eq_ok_iff htext hread
  refine ⟨snapshot, htext, hread, hsaved.mpr hpair, (hload _ _ _).mpr ⟨rfl, hsnapshot.symm, ?_⟩⟩
  decide

/-- An array of a version and no cells is loaded, and gives no version when it is asked for. -/
theorem savedVersion_of_array :
    let source := "[\"v\",\x7b\x7d]"
    let folder : Folder := ⟨(∅ : Std.ExtTreeMap String ByteArray).insert "s" source.toUTF8⟩
    folder.readText "s" = .ok source ∧ (Snapshot.read? source).map Snapshot.version = some "v" ∧
      (load folder "s" { version := "v" }).map (·.options.version) = .ok "v" ∧
      savedVersion folder "s" = .error .notSnapshot := by
  intro source folder
  refine ⟨by decide +kernel, by decide +kernel, by decide +kernel, by decide +kernel⟩

end Sheet

/-- A file that a sheet was saved to gives the version of the sheet, as long as it is as it was
written. -/
theorem Desk.savedVersion_of_save {desk saved : Desk} {file : String}
    (hsave : desk.save file = (.ok (), saved)) {later : Folder}
    (hlater : later.read file = saved.folder.read file) :
    Sheet.savedVersion later file = .ok desk.sheet.options.version := by
  unfold save at hsave
  cases hwrite : desk.folder.writeText file desk.sheet.snapshot.text with
  | error fault =>
      rw [hwrite] at hsave
      cases hsave
  | ok written =>
      rw [hwrite] at hsave
      cases hsave
      have htext := Folder.readText_of_read (hlater.trans (Folder.read_of_writeText hwrite))
      have hversion := Snapshot.readVersion?_of_read? desk.sheet.snapshot.read?_text_eq_some
        desk.sheet.snapshot.not_writesPair_text
      rw [Sheet.savedVersion_eq htext, hversion]
      rfl

end Worksheet
